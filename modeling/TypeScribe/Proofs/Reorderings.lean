import TypeScribe.Proofs.Conformity

/-!
# Tables in another order

A value of a document is reordered where the entries of tables of fixed shape come in another order, in it and in its
parts. All else stays: what the keys and scalars are, the order of arrays, and that of tables with free names. Where
the text was read from does not matter.

* `Reordered`: two values differ in the order of such tables only.
* `Steady`: a reader gives the same for a value that is reordered.
* `Record.read_steady`: a table of fixed shape is read steadily if its fields are, and one can be set before the other.
-/

namespace TypeScribe

/-! ## Shapes of parts -/

/-- The kind of elements that a tag says, by its word or by its index. -/
def Node.kind? : Node → Option Kind
  | .text _ word => elementTags.lookup word
  | .number _ (.integer index) => taggedKinds[index.toNat]?
  | _ => none

namespace Shape

/-- The shape of a value in which nothing of fixed shape is looked for. -/
def inert : Shape := .text

/-- What an array or a table is to be, once null, texts and scalars are told apart. -/
def core : Shape → Shape
  | .nullable shape | .textOr shape | .scalarOr shape => shape.core
  | shape => shape

/-- Whether the keys of a table are those of fields. -/
def isFixed (shape : Shape) : Bool :=
  match shape.core with
  | .record _ | .element => true
  | _ => false

end Shape

namespace TableKind

/-- The shape of the value at a key. -/
def field (kind : TableKind) (key : String) : Shape :=
  ((kind.slots.find? (·.names.contains key)).map Slot.shape).getD .inert

/-- The shape of an item, where the fields are written as an array. -/
def item (kind : TableKind) (index : Nat) : Shape := ((kind.slots[index]?).map Slot.shape).getD .inert

end TableKind

namespace Shape

/-- The shape of the value at a key of a table. That of an element goes by its first tag. -/
def field (shape : Shape) (entries : List Entry) (key : String) : Shape :=
  match shape.core with
  | .free value => value
  | .record kind => kind.field key
  | .element =>
    match (entries.find? (·.key.name = tagKey)).bind fun e => e.value.kind? with
    | some kind => (TableKind.part kind).field key
    | none => .inert
  | _ => .inert

/-- The shape of an item of an array. An element may be an array that begins with its tag. -/
def item (shape : Shape) (items : List Node) (index : Nat) : Shape :=
  match shape.core with
  | .list item => item
  | .record kind => kind.item index
  | .element =>
    match items.head?.bind Node.kind? with
    | some kind => if index = 0 then .inert else (TableKind.part kind).item (index - 1)
    | none => .inert
  | _ => .inert

end Shape

/-- Two values that are to have a shape differ in nothing but places in the text and the order of the entries of
tables of fixed shape. -/
inductive Reordered : Shape → Node → Node → Prop
  | unread (shape : Shape) : Reordered shape .unread .unread
  | null (shape : Shape) (span span' : Span) : Reordered shape (.null span) (.null span')
  | bool (shape : Shape) (span span' : Span) (value : Bool) : Reordered shape (.bool span value) (.bool span' value)
  | number (shape : Shape) (span span' : Span) (value : Number) :
    Reordered shape (.number span value) (.number span' value)
  | text (shape : Shape) (span span' : Span) (value : String) :
    Reordered shape (.text span value) (.text span' value)
  | array {shape : Shape} (span span' : Span) (closed : Bool) (pairs : List (Node × Node))
    (all : ∀ i p, pairs[i]? = some p → Reordered (shape.item (pairs.map Prod.fst) i) p.1 p.2) :
    Reordered shape (.array span (pairs.map Prod.fst) closed) (.array span' (pairs.map Prod.snd) closed)
  /-- Entries with the same keys, in pairs, before the second ones are put in another order. -/
  | table {shape : Shape} (span span' : Span) (closed : Bool) (pairs : List (Entry × Entry)) (others : List Entry)
    (keys : ∀ p ∈ pairs, p.2.key.name = p.1.key.name)
    (all : ∀ p ∈ pairs, Reordered (shape.field (pairs.map Prod.fst) p.1.key.name) p.1.value p.2.value)
    (order : others = pairs.map Prod.snd ∨ shape.isFixed = true ∧ others.Perm (pairs.map Prod.snd)) :
    Reordered shape (.table span (pairs.map Prod.fst) closed) (.table span' others closed)

namespace Reordered

variable {shape shape' : Shape} {n n' : Node}

/-- What shapes ask of arrays and tables is all that counts. -/
theorem congr_core (h : Reordered shape n n') (hcore : shape.core = shape'.core) : Reordered shape' n n' := by
  have hfield : shape.field = shape'.field := by
    funext entries key
    rw [Shape.field, Shape.field, hcore]
  have hitem : shape.item = shape'.item := by
    funext items index
    rw [Shape.item, Shape.item, hcore]
  have hfixed : shape.isFixed = shape'.isFixed := by rw [Shape.isFixed, Shape.isFixed, hcore]
  cases h with
  | unread => exact .unread _
  | null => exact .null _ _ _
  | bool => exact .bool _ _ _ _
  | number => exact .number _ _ _ _
  | text => exact .text _ _ _ _
  | array span span' closed pairs all => exact .array _ _ _ pairs (hitem ▸ all)
  | table span span' closed pairs others keys all order =>
    exact .table _ _ _ pairs others keys (hfield ▸ all) (hfixed ▸ order)

/-- An array is reordered if its items are, here each to itself. -/
theorem array_self {items : List Node} (all : ∀ n ∈ items, ∀ s, Reordered s n n) (span span' : Span) (closed : Bool) :
    Reordered shape (.array span items closed) (.array span' items closed) := by
  have hfst : (items.map fun n => (n, n)).map Prod.fst = items := List.map_map.trans (List.map_id items)
  have hsnd : (items.map fun n => (n, n)).map Prod.snd = items := List.map_map.trans (List.map_id items)
  have h := @array shape span span' closed (items.map fun n => (n, n)) fun i p hp => by
    obtain ⟨n, hn, rfl⟩ := List.mem_map.mp (List.mem_of_getElem? hp)
    exact all n hn _
  rwa [hfst, hsnd] at h

/-- A table is reordered if its entries are put in another order, where it is of fixed shape. -/
theorem table_self {entries others : List Entry} (all : ∀ e ∈ entries, ∀ s, Reordered s e.value e.value)
    (order : others = entries ∨ shape.isFixed = true ∧ others.Perm entries) (span span' : Span) (closed : Bool) :
    Reordered shape (.table span entries closed) (.table span' others closed) := by
  have hfst : (entries.map fun e => (e, e)).map Prod.fst = entries := List.map_map.trans (List.map_id entries)
  have hsnd : (entries.map fun e => (e, e)).map Prod.snd = entries := List.map_map.trans (List.map_id entries)
  have h := @table shape span span' closed (entries.map fun e => (e, e)) others (List.forall_mem_map.mpr fun _ _ => rfl)
    (List.forall_mem_map.mpr fun e he => all e he _) (by rwa [hsnd])
  rwa [hfst] at h

/-- Every value is reordered to itself. -/
theorem refl (shape : Shape) : (n : Node) → Reordered shape n n
  | .unread => .unread shape
  | .null span => .null shape span span
  | .bool span value => .bool shape span span value
  | .number span value => .number shape span span value
  | .text span value => .text shape span span value
  | .array span items closed => array_self (fun n _ s => refl s n) span span closed
  | .table span entries closed => table_self (fun e _ s => refl s e.value) (.inl rfl) span span closed
termination_by n => n.height
decreasing_by
  · rw [Node.height]
    exact Nat.lt_succ_of_le (Node.height_le_listHeight ‹_›)
  · rw [Node.height]
    exact Nat.lt_succ_of_le (Node.height_le_entriesHeight ‹_›)

/-- The entries of a table of fixed shape may come in any order. -/
theorem of_perm (hshape : shape.isFixed = true) {entries others : List Entry} (h : others.Perm entries) (span : Span)
    (closed : Bool) : Reordered shape (.table span entries closed) (.table span others closed) :=
  table_self (fun e _ s => refl s e.value) (.inr ⟨hshape, h⟩) span span closed

end Reordered

/-! ## Height -/

section Height

open Node (listHeight entriesHeight)

theorem listHeight_congr {pairs : List (Node × Node)} (h : ∀ p ∈ pairs, p.1.height = p.2.height) :
    listHeight (pairs.map Prod.fst) = listHeight (pairs.map Prod.snd) := by
  induction pairs with
  | nil => rfl
  | cons p pairs ih =>
    rw [List.forall_mem_cons] at h
    rw [List.map_cons, List.map_cons, listHeight, listHeight, h.1, ih h.2]

theorem entriesHeight_congr {pairs : List (Entry × Entry)} (h : ∀ p ∈ pairs, p.1.value.height = p.2.value.height) :
    entriesHeight (pairs.map Prod.fst) = entriesHeight (pairs.map Prod.snd) := by
  induction pairs with
  | nil => rfl
  | cons p pairs ih =>
    rw [List.forall_mem_cons] at h
    rw [List.map_cons, List.map_cons, entriesHeight_cons, entriesHeight_cons, h.1, ih h.2]

theorem entriesHeight_perm {entries entries' : List Entry} (h : entries.Perm entries') :
    entriesHeight entries = entriesHeight entries' := by
  induction h with
  | nil => rfl
  | cons e _ ih => rw [entriesHeight_cons, entriesHeight_cons, ih]
  | swap e f l => simp only [entriesHeight_cons, Nat.max_left_comm]
  | trans _ _ ih ih' => exact ih.trans ih'

/-- Values are nested as deep as before. -/
theorem Reordered.height_eq {shape : Shape} {n n' : Node} (h : Reordered shape n n') : n.height = n'.height := by
  induction h with
  | unread | null | bool | number | text => simp only [Node.height]
  | array span span' closed pairs _ ih =>
    have hitems : ∀ p ∈ pairs, p.1.height = p.2.height := fun p hp =>
      (List.mem_iff_getElem?.mp hp).elim fun i hi => ih i p hi
    rw [Node.height, Node.height, listHeight_congr hitems]
  | table span span' closed pairs others _ _ order ih =>
    rw [Node.height, Node.height, entriesHeight_congr ih]
    rcases order with rfl | ⟨-, hperm⟩
    · rfl
    · rw [entriesHeight_perm hperm]

end Height

/-! ## Reading whole -/

theorem admitItems_eq_ok_iff {items : List Node} : admitItems items = .ok () ↔ ∀ n ∈ items, n.admitAll = .ok () := by
  induction items with
  | nil => simp [admitItems]
  | cons n rest ih =>
    rw [admitItems, List.forall_mem_cons, ← ih]
    cases n.admitAll <;> simp [bind, Except.bind]

theorem admitEntries_eq_ok_iff {entries : List Entry} :
    admitEntries entries = .ok () ↔ ∀ e ∈ entries, e.value.admitAll = .ok () := by
  induction entries with
  | nil => simp [admitEntries]
  | cons e rest ih =>
    obtain ⟨key, n⟩ := e
    rw [admitEntries, List.forall_mem_cons, ← ih]
    cases n.admitAll <;> simp [bind, Except.bind]

theorem admitAll_array_eq_ok_iff {span : Span} {items : List Node} {closed : Bool} :
    Node.admitAll (.array span items closed) = .ok () ↔ closed = true ∧ ∀ n ∈ items, n.admitAll = .ok () := by
  rw [Node.admitAll, ← admitItems_eq_ok_iff]
  cases admitItems items <;> cases closed <;> simp [bind, Except.bind, readEnd]

theorem admitAll_table_eq_ok_iff {span : Span} {entries : List Entry} {closed : Bool} :
    Node.admitAll (.table span entries closed) = .ok () ↔ closed = true ∧ ∀ e ∈ entries, e.value.admitAll = .ok () := by
  rw [Node.admitAll, ← admitEntries_eq_ok_iff]
  cases admitEntries entries <;> cases closed <;> simp [bind, Except.bind, readEnd]

/-- A value that can be read whole still can. -/
theorem Reordered.admitAll_eq_ok {shape : Shape} {n n' : Node} (h : Reordered shape n n') :
    n.admitAll = .ok () → n'.admitAll = .ok () := by
  induction h with
  | unread | null | bool | text => simp only [Node.admitAll, imp_self]
  | number shape span span' value =>
    rw [Node.admitAll, Node.admitAll]
    cases value.isAdmitted <;> simp
  | array span span' closed pairs _ ih =>
    rw [admitAll_array_eq_ok_iff, admitAll_array_eq_ok_iff, List.forall_mem_map, List.forall_mem_map]
    refine And.imp_right fun h p hp => ?_
    obtain ⟨i, hi⟩ := List.mem_iff_getElem?.mp hp
    exact ih i p hi (h p hp)
  | table span span' closed pairs others _ _ order ih =>
    rw [admitAll_table_eq_ok_iff, admitAll_table_eq_ok_iff, List.forall_mem_map]
    refine And.imp_right fun h => ?_
    have hpairs : ∀ e ∈ pairs.map Prod.snd, e.value.admitAll = .ok () :=
      List.forall_mem_map.mpr fun p hp => ih p hp (h p hp)
    rcases order with rfl | ⟨-, hperm⟩
    · exact hpairs
    · exact fun e he => hpairs e (hperm.mem_iff.mp he)

/-! ## Readings that are kept -/

section Kept

variable {α β : Type}

/-- One reading is kept by another: if it has a result, the other has the same. -/
def Keeps (x y : Read α) : Prop := ∀ a, x = .ok a → y = .ok a

namespace Keeps

variable {x y : Read α}

theorem refl (x : Read α) : Keeps x x := fun _ h => h

theorem of_error (f : Fault) (y : Read α) : Keeps (.error f) y := fun _ h => by cases h

theorem ite {z w : Read α} {p : Prop} [Decidable p] (h : Keeps x y) (h' : Keeps z w) :
    Keeps (if p then x else z) (if p then y else w) := by
  split
  · exact h
  · exact h'

theorem bind {f g : α → Read β} (h : Keeps x y) (hfg : ∀ a, x = .ok a → Keeps (f a) (g a)) :
    Keeps (x >>= f) (y >>= g) := by
  intro b hb
  cases hx : x with
  | error e => rw [hx] at hb; cases hb
  | ok a =>
    rw [h a hx]
    rw [hx] at hb
    exact hfg a hx b hb

theorem map (h : Keeps x y) (f : α → β) : Keeps (x.map f) (y.map f) := by
  intro b hb
  cases hx : x with
  | error e => rw [hx] at hb; cases hb
  | ok a =>
    rw [h a hx]
    rwa [hx] at hb

theorem mapError (h : Keeps x y) (f g : Fault → Fault) : Keeps (x.mapError f) (y.mapError g) := by
  intro a ha
  cases hx : x with
  | error e => rw [hx] at ha; cases ha
  | ok b =>
    rw [h b hx]
    rwa [hx] at ha

end Keeps

/-- A reader of values of a shape is steady: what it reads is kept when a value is reordered. -/
def Steady (shape : Shape) (r : Node → Read α) : Prop := ∀ n n', Reordered shape n n' → Keeps (r n) (r n')

variable {shape : Shape} {r : Node → Read α}

theorem Steady.map (h : Steady shape r) (f : α → β) : Steady shape fun n => (r n).map f :=
  fun n n' hn => (h n n' hn).map f

/-! ## Scalars -/

theorem readText_steady : Steady shape readText := by
  intro n n' h
  cases h <;> first | exact .refl _ | exact .of_error _ _

theorem readPath_steady : Steady shape readPath := by
  intro n n' h
  cases h <;> first | exact .refl _ | exact .of_error _ _

theorem readBool_steady : Steady shape readBool := by
  intro n n' h
  cases h <;> first | exact .refl _ | exact .of_error _ _

theorem readByte_steady : Steady shape readByte := by
  intro n n' h
  cases h with
  | number _ span span' value =>
    cases value with
    | integer value =>
      rw [readByte, readByte]
      split
      · exact .refl _
      · split <;> exact .of_error _ _
    | _ => exact .of_error _ _
  | _ => exact .of_error _ _

theorem Reordered.verbatim_eq {n n' : Node} (h : Reordered shape n n') : n.verbatim? = n'.verbatim? := by
  cases h <;> rfl

theorem readVerbatim_steady : Steady shape readVerbatim := by
  intro n n' h
  rw [readVerbatim, readVerbatim, h.verbatim_eq]
  cases n'.verbatim? with
  | some text => exact .refl _
  | none => exact .of_error _ _

theorem findVariant_keeps (variants : List (String × α)) (name : String) (place place' : Place) :
    Keeps (findVariant variants name place) (findVariant variants name place') := by
  rw [findVariant, findVariant]
  cases variants.lookup name with
  | some a => exact .refl _
  | none => exact .of_error _ _

theorem readVariant_steady (variants : List (String × α)) (mode : Mode) :
    Steady shape (readVariant variants mode) := by
  intro n n' h
  cases h with
  | text => exact findVariant_keeps _ _ _ _
  | number _ span span' value =>
    rw [readVariant, readVariant]
    cases value.index? mode with
    | none => exact .of_error _ _
    | some i =>
      dsimp only
      cases variants[i]? with
      | none => exact .of_error _ _
      | some p => exact .refl _
  | _ => exact .of_error _ _

theorem readUnit_steady (mode : Mode) : Steady .inert (readUnit mode) := by
  intro n n' h
  cases h with
  | null => exact .refl _
  | table span span' closed pairs others keys all order =>
    obtain rfl : others = pairs.map Prod.snd := order.resolve_right fun h => Bool.false_ne_true h.1
    cases pairs with
    | nil =>
      simp only [List.map_nil, readUnit]
      cases mode.buffered
      · exact .of_error _ _
      · exact .refl _
    | cons p pairs => exact .of_error _ _
  | _ => exact .of_error _ _

/-- A word may be the only key of a table. -/
theorem readChoice_steady (variants : List (String × α)) (words : List String) (mode : Mode) :
    Steady (.word words) (readChoice variants mode) := by
  intro n n' h
  cases h with
  | text => exact findVariant_keeps _ _ _ _
  | table span span' closed pairs others keys all order =>
    obtain rfl : others = pairs.map Prod.snd := order.resolve_right fun h => Bool.false_ne_true h.1
    rcases pairs with _ | ⟨⟨⟨key, value⟩, ⟨key', value'⟩⟩, pairs⟩
    · cases hb : mode.buffered <;> simp only [readChoice, hb, if_true, Bool.false_eq_true, if_false, List.map_nil] <;>
        exact .of_error _ _
    have hkey : key'.name = key.name := keys _ List.mem_cons_self
    have hvalue : Keeps (readUnit mode value) (readUnit mode value') :=
      readUnit_steady mode _ _ (all _ List.mem_cons_self)
    -- The only entry is looked at, or the first one before others are noticed.
    cases hb : mode.buffered with
    | true =>
      cases pairs with
      | nil =>
        simp only [readChoice, hb, if_true, List.map_cons, List.map_nil, hkey]
        exact (findVariant_keeps _ _ _ _).bind fun a _ => hvalue.bind fun _ _ => .refl _
      | cons p pairs =>
        simp only [readChoice, hb, if_true, List.map_cons]
        exact .of_error _ _
    | false =>
      simp only [readChoice, hb, Bool.false_eq_true, if_false, List.map_cons, hkey, List.isEmpty_map]
      refine (findVariant_keeps _ _ _ _).bind fun a _ => hvalue.bind fun _ _ => ?_
      split
      · exact .refl _
      · exact .of_error _ _
  | unread => exact .of_error _ _
  | _ =>
    simp only [readChoice]
    cases mode.buffered <;> exact .of_error _ _

/-! ## Lists and free tables -/

theorem readOptional_steady (h : Steady shape r) : Steady (.nullable shape) (readOptional r) := by
  intro n n' hn
  have given : Keeps ((r n).map some) ((r n').map some) := (h n n' (hn.congr_core rfl)).map some
  cases hn with
  | null => exact .refl _
  | _ => exact given

theorem readItems_keeps {pairs : List (Node × Node)} (h : ∀ p ∈ pairs, Keeps (r p.1) (r p.2)) :
    Keeps (readItems r (pairs.map Prod.fst)) (readItems r (pairs.map Prod.snd)) := by
  induction pairs with
  | nil => exact .refl _
  | cons p pairs ih =>
    rw [List.forall_mem_cons] at h
    exact h.1.bind fun a _ => (ih h.2).bind fun more _ => .refl _

theorem readList_steady (h : Steady shape r) : Steady (.list shape) (readList r) := by
  intro n n' hn
  cases hn with
  | array span span' closed pairs all =>
    have hpairs : ∀ p ∈ pairs, Keeps (r p.1) (r p.2) := fun p hp =>
      (List.mem_iff_getElem?.mp hp).elim fun i hi => h _ _ (all i p hi)
    exact (readItems_keeps hpairs).bind fun as _ => .refl _
  | _ => exact .of_error _ _

theorem readFreeEntries_keeps (key : β → String) (make : String → α → β) {pairs : List (Entry × Entry)}
    (keys : ∀ p ∈ pairs, p.2.key.name = p.1.key.name) (h : ∀ p ∈ pairs, Keeps (r p.1.value) (r p.2.value))
    (done : List β) :
    Keeps (readFreeEntries key make r done (pairs.map Prod.fst))
      (readFreeEntries key make r done (pairs.map Prod.snd)) := by
  induction pairs generalizing done with
  | nil => exact .refl _
  | cons p pairs ih =>
    obtain ⟨⟨name, value⟩, ⟨name', value'⟩⟩ := p
    rw [List.forall_mem_cons] at keys h
    rw [List.map_cons, List.map_cons, readFreeEntries, readFreeEntries, keys.1]
    exact h.1.bind fun a _ => ih keys.2 h.2 _

/-- The entries of a table with free names stay in their order. -/
theorem readFree_steady (h : Steady shape r) (key : β → String) (make : String → α → β) :
    Steady (.free shape) (readFree key make r) := by
  intro n n' hn
  cases hn with
  | table span span' closed pairs others keys all order =>
    obtain rfl : others = pairs.map Prod.snd := order.resolve_right fun h => Bool.false_ne_true h.1
    exact (readFreeEntries_keeps key make keys (fun p hp => h _ _ (all p hp)) []).bind fun as _ => .refl _
  | _ => exact .of_error _ _

end Kept

/-! ## Tables of fixed shape -/

section Records

variable {σ α β : Type}

/-- One of two fields of a record can be set before the other. -/
def Column.Commutes (c d : Column σ) : Prop :=
  ∀ m n s s', (c.fill m s >>= d.fill n) = .ok s' ↔ (d.fill n s >>= c.fill m) = .ok s'

theorem Column.Commutes.symm {c d : Column σ} (h : c.Commutes d) : d.Commutes c := fun m n s s' => (h n m s s').symm

theorem Column.commutes_of_set {c d : Column σ} {read : Node → Read α} {read' : Node → Read β} {set : α → σ → σ}
    {set' : β → σ → σ} (hc : ∀ n s, c.fill n s = (read n).map (set · s))
    (hd : ∀ n s, d.fill n s = (read' n).map (set' · s)) (h : ∀ a b s, set' b (set a s) = set a (set' b s)) :
    c.Commutes d := by
  intro m n s s'
  have hc' : c.fill m = fun s => (read m).map (set · s) := funext (hc m)
  have hd' : d.fill n = fun s => (read' n).map (set' · s) := funext (hd n)
  rw [hc', hd']
  cases read m <;> cases read' n <;> simp [Except.map, bind, Except.bind, h]

section Pairs

variable {name name' : String} {read : Node → Read α} {read' : Node → Read β} {set : α → σ → σ} {set' : β → σ → σ}

@[simp] theorem Column.needed_commutes_needed (h : ∀ a b s, set' b (set a s) = set a (set' b s)) :
    (Column.needed name read set).Commutes (.needed name' read' set') :=
  commutes_of_set (fun _ _ => rfl) (fun _ _ => rfl) h

@[simp] theorem Column.needed_commutes_optional (h : ∀ a b s, set' b (set a s) = set a (set' b s)) :
    (Column.needed name read set).Commutes (.optional name' read' set') :=
  commutes_of_set (fun _ _ => rfl) (fun _ _ => rfl) h

@[simp] theorem Column.optional_commutes_optional (h : ∀ a b s, set' b (set a s) = set a (set' b s)) :
    (Column.optional name read set).Commutes (.optional name' read' set') :=
  commutes_of_set (fun _ _ => rfl) (fun _ _ => rfl) h

@[simp] theorem Column.orNamed_commutes {c d : Column σ} {key : String} :
    (c.orNamed key).Commutes d ↔ c.Commutes d := Iff.rfl

@[simp] theorem Column.commutes_orNamed {c d : Column σ} {key : String} :
    c.Commutes (d.orNamed key) ↔ c.Commutes d := Iff.rfl

end Pairs

/-- A column reads a field steadily. -/
structure Slot.Steadies (slot : Slot) (c : Column σ) : Prop where
  names : c.names = slot.names
  fill (s : σ) : Steady slot.shape (c.fill · s)

variable {shape : Shape} {r : Node → Read α}

theorem Slot.Steadies.needed (name : String) {set : α → σ → σ} (h : Steady shape r) :
    (Slot.needed name shape).Steadies (.needed name r set) where
  names := rfl
  fill s := h.map (set · s)

theorem Slot.Steadies.optional (name : String) {set : α → σ → σ} (h : Steady shape r) :
    (Slot.optional name shape).Steadies (.optional name r set) where
  names := rfl
  fill s := h.map (set · s)

theorem Slot.Steadies.orNamed {slot : Slot} {c : Column σ} (h : slot.Steadies c) (key : String) :
    (slot.orNamed key).Steadies (c.orNamed key) where
  names := congrArg (· ++ [key]) h.names
  fill := h.fill

/-- The columns of a record read the fields of a table steadily, and of any two of them either can be set first. -/
structure Record.IsSteady (slots : List Slot) (rec : Record σ) : Prop where
  columns : List.Forall₂ Slot.Steadies slots rec.columns
  commute : rec.columns.Pairwise Column.Commutes

variable {slots : List Slot} {rec : Record σ}

theorem steadies_find {columns : List (Column σ)} (h : List.Forall₂ Slot.Steadies slots columns) {key : String}
    {c : Column σ} (hc : columns.find? (fun c => c.names.contains key) = some c) :
    ∃ slot, slots.find? (·.names.contains key) = some slot ∧ slot.Steadies c := by
  induction h with
  | nil => cases hc
  | @cons slot d slots columns first _ ih =>
    rw [List.find?_cons] at hc ⊢
    rw [first.names] at hc
    cases hkey : slot.names.contains key with
    | true =>
      rw [hkey] at hc
      exact ⟨slot, rfl, Option.some.inj hc ▸ first⟩
    | false =>
      rw [hkey] at hc
      exact ih hc

/-- An entry is taken if its key is that of a field which is not taken yet and its value can be read. -/
theorem Record.fillEntries_cons_eq_ok_iff {taken : List String} {s : σ} {e : Entry} {rest : List Entry}
    {result : List String × σ} :
    rec.fillEntries taken s (e :: rest) = .ok result ↔
      ∃ c, rec.column? e.key.name = some c ∧ c.name ∉ taken ∧
        ∃ s₁, c.fill e.value s = .ok s₁ ∧ rec.fillEntries (c.name :: taken) s₁ rest = .ok result := by
  obtain ⟨key, n⟩ := e
  rw [fillEntries]
  cases hc : rec.column? key.name with
  | none => simp
  | some c =>
    by_cases ht : c.name ∈ taken
    · simp [ht]
    · cases hs : c.fill n s <;> simp [ht, hs, bind, Except.bind]

/-- Entries with reordered values are taken like the others. -/
theorem Record.IsSteady.fillEntries_keeps {kind : TableKind} (h : rec.IsSteady kind.slots)
    {pairs : List (Entry × Entry)} (keys : ∀ p ∈ pairs, p.2.key.name = p.1.key.name)
    (all : ∀ p ∈ pairs, Reordered (kind.field p.1.key.name) p.1.value p.2.value) (taken : List String) (s : σ) :
    Keeps (rec.fillEntries taken s (pairs.map Prod.fst)) (rec.fillEntries taken s (pairs.map Prod.snd)) := by
  induction pairs generalizing taken s with
  | nil => exact .refl _
  | cons p pairs ih =>
    rw [List.forall_mem_cons] at keys all
    intro result hresult
    rw [List.map_cons, fillEntries_cons_eq_ok_iff] at hresult ⊢
    obtain ⟨c, hc, ht, s₁, hs, hrest⟩ := hresult
    obtain ⟨slot, hslot, hsteady⟩ := steadies_find h.columns hc
    have hshape : kind.field p.1.key.name = slot.shape := by rw [TableKind.field, hslot]; rfl
    have hvalue : Reordered slot.shape p.1.value p.2.value := hshape ▸ all.1
    exact ⟨c, keys.1 ▸ hc, ht, s₁, hsteady.fill s _ _ hvalue _ hs, ih keys.2 all.2 _ _ _ hrest⟩

/-- In which order the fields were taken is all one. -/
theorem Record.fillEntries_of_taken_perm {taken taken' : List String} (h : taken.Perm taken') {entries : List Entry}
    {s : σ} {result : List String × σ} (hresult : rec.fillEntries taken s entries = .ok result) :
    ∃ names, result.1.Perm names ∧ rec.fillEntries taken' s entries = .ok (names, result.2) := by
  induction entries generalizing taken taken' s with
  | nil =>
    rw [fillEntries] at hresult ⊢
    obtain rfl := Except.ok.inj hresult
    exact ⟨taken', h, rfl⟩
  | cons e rest ih =>
    obtain ⟨c, hc, ht, s₁, hs, hrest⟩ := fillEntries_cons_eq_ok_iff.mp hresult
    obtain ⟨names, hnames, hrest'⟩ := ih (h.cons c.name) hrest
    exact ⟨names, hnames, fillEntries_cons_eq_ok_iff.mpr ⟨c, hc, mt h.mem_iff.mpr ht, s₁, hs, hrest'⟩⟩

/-- Entries in another order are taken with the same result, and the same fields are taken. -/
theorem Record.IsSteady.fillEntries_perm (h : rec.IsSteady slots) {entries entries' : List Entry}
    (hperm : entries.Perm entries') {taken : List String} {s : σ} {result : List String × σ}
    (hresult : rec.fillEntries taken s entries = .ok result) :
    ∃ names, result.1.Perm names ∧ rec.fillEntries taken s entries' = .ok (names, result.2) := by
  induction hperm generalizing taken s result with
  | nil => exact ⟨result.1, .refl _, hresult⟩
  | cons e _ ih =>
    obtain ⟨c, hc, ht, s₁, hs, hrest⟩ := fillEntries_cons_eq_ok_iff.mp hresult
    obtain ⟨names, hnames, hrest'⟩ := ih hrest
    exact ⟨names, hnames, fillEntries_cons_eq_ok_iff.mpr ⟨c, hc, ht, s₁, hs, hrest'⟩⟩
  | swap e f rest =>
    obtain ⟨c, hc, ht, s₁, hs, hrest⟩ := fillEntries_cons_eq_ok_iff.mp hresult
    obtain ⟨d, hd, ht', s₂, hs', hrest⟩ := fillEntries_cons_eq_ok_iff.mp hrest
    rw [List.mem_cons, not_or] at ht'
    -- The two fields are different, so the second one can be set first.
    have : Std.Symm (@Column.Commutes σ) := ⟨fun _ _ => Column.Commutes.symm⟩
    have hcd : c.Commutes d := h.commute.forall (List.mem_of_find?_eq_some hc) (List.mem_of_find?_eq_some hd)
      fun heq => ht'.1 (heq ▸ rfl)
    have hboth : (c.fill f.value s >>= d.fill e.value) = .ok s₂ := by
      rw [hs]
      exact hs'
    rw [hcd] at hboth
    cases hs₃ : d.fill e.value s with
    | error fault => rw [hs₃] at hboth; cases hboth
    | ok s₃ =>
      rw [hs₃] at hboth
      obtain ⟨names, hnames, hrest'⟩ := fillEntries_of_taken_perm (.swap c.name d.name taken) hrest
      refine ⟨names, hnames, fillEntries_cons_eq_ok_iff.mpr ⟨d, hd, ht'.2, s₃, hs₃, ?_⟩⟩
      refine fillEntries_cons_eq_ok_iff.mpr ⟨c, hc, ?_, s₂, hboth, hrest'⟩
      rw [List.mem_cons, not_or]
      exact ⟨Ne.symm ht'.1, ht⟩
  | trans _ _ ih ih' =>
    obtain ⟨names, hnames, hmiddle⟩ := ih hresult
    obtain ⟨names', hnames', hlast⟩ := ih' hmiddle
    exact ⟨names', hnames.trans hnames', hlast⟩

/-- The same fields are missing, whatever the order is in which the others were taken. -/
theorem Record.missing?_of_perm (rec : Record σ) {taken taken' : List String} (h : taken.Perm taken') :
    rec.missing? taken = rec.missing? taken' := by
  have hcontains : ∀ name, taken.contains name = taken'.contains name := fun name => h.contains_eq
  simp only [missing?, hcontains]

/-- A table of fixed shape is read from its entries in any order. -/
theorem Record.IsSteady.readEntries_keeps {kind : TableKind} (h : rec.IsSteady kind.slots) (span span' : Span)
    (closed : Bool) {pairs : List (Entry × Entry)} {others : List Entry}
    (keys : ∀ p ∈ pairs, p.2.key.name = p.1.key.name)
    (all : ∀ p ∈ pairs, Reordered (kind.field p.1.key.name) p.1.value p.2.value)
    (hperm : others.Perm (pairs.map Prod.snd)) :
    Keeps (rec.readEntries span (pairs.map Prod.fst) closed) (rec.readEntries span' others closed) := by
  intro a ha
  rw [readEntries] at ha
  cases hfill : rec.fillEntries [] rec.blank (pairs.map Prod.fst) with
  | error f => rw [hfill] at ha; cases ha
  | ok result =>
    obtain ⟨names, hnames, hother⟩ := h.fillEntries_perm hperm.symm (h.fillEntries_keeps keys all _ _ _ hfill)
    rw [hfill] at ha
    rw [readEntries, hother]
    refine Keeps.bind (.refl (readEnd closed)) (fun _ _ => ?_) a ha
    rw [rec.missing?_of_perm hnames]
    cases rec.missing? names with
    | none => exact .refl _
    | some c => exact .of_error _ _

/-- Reordered items are taken for the fields like the others, and as many are left over. -/
theorem Record.fillItems_keeps {columns : List (Column σ)} (h : List.Forall₂ Slot.Steadies slots columns)
    (span span' : Span) (closed : Bool) {pairs : List (Node × Node)}
    (all : ∀ (i : Nat) p slot, pairs[i]? = some p → slots[i]? = some slot → Reordered slot.shape p.1 p.2) {index : Nat}
    {s : σ} {result : σ × List Node}
    (hr : rec.fillItems span closed columns index s (pairs.map Prod.fst) = .ok result) :
    ∃ left, left.length = result.2.length ∧
      rec.fillItems span' closed columns index s (pairs.map Prod.snd) = .ok (result.1, left) := by
  induction h generalizing pairs index s with
  | nil =>
    rw [fillItems] at hr ⊢
    obtain rfl := Except.ok.inj hr
    exact ⟨_, by rw [List.length_map, List.length_map], rfl⟩
  | @cons slot c slots columns first _ ih =>
    cases pairs with
    | nil =>
      rw [List.map_nil, fillItems] at hr ⊢
      cases closed with
      | false => cases hr
      | true =>
        cases hrequired : c.required with
        | true => rw [hrequired] at hr; cases hr
        | false =>
          rw [hrequired] at hr
          exact @ih [] (fun i p slot hp => by cases hp) _ _ hr
    | cons p pairs =>
      rw [List.map_cons, fillItems] at hr ⊢
      have hfill : Keeps (c.fill p.1 s) (c.fill p.2 s) := first.fill s _ _ (all 0 p slot rfl rfl)
      cases hs : c.fill p.1 s with
      | error f => rw [hs] at hr; cases hr
      | ok s₁ =>
        rw [hs] at hr
        rw [hfill s₁ hs]
        exact ih (fun i q other hq ho => all (i + 1) q other hq ho) hr

/-- A table of fixed shape that is written as an array is read steadily. -/
theorem Record.IsSteady.readArray_keeps {kind : TableKind} (h : rec.IsSteady kind.slots) (mode : Mode)
    (span span' : Span) (closed : Bool) {pairs : List (Node × Node)}
    (all : ∀ i p, pairs[i]? = some p → Reordered (kind.item i) p.1 p.2) :
    Keeps (rec.readArray mode span (pairs.map Prod.fst) closed)
      (rec.readArray mode span' (pairs.map Prod.snd) closed) := by
  intro a ha
  have hitems : ∀ (i : Nat) p slot, pairs[i]? = some p → kind.slots[i]? = some slot → Reordered slot.shape p.1 p.2 := by
    intro i p slot hp hslot
    have hitem := all i p hp
    rwa [TableKind.item, hslot] at hitem
  rw [readArray] at ha
  cases hfill : rec.fillItems span closed rec.columns 0 rec.blank (pairs.map Prod.fst) with
  | error f => rw [hfill] at ha; cases ha
  | ok result =>
    obtain ⟨left, hleft, hother⟩ := fillItems_keeps h.columns span span' closed hitems hfill
    have hempty : left.isEmpty = result.2.isEmpty :=
      Bool.eq_iff_iff.mpr (by rw [List.isEmpty_iff_length_eq_zero, List.isEmpty_iff_length_eq_zero, hleft])
    rw [hfill] at ha
    rw [readArray, hother]
    -- Whether items may be left over depends on the mode only.
    simp only [bind, Except.bind, hempty] at ha ⊢
    refine Keeps.ite (.ite (.refl _) (.of_error _ _)) ?_ a ha
    cases mode.format with
    | toml => exact .refl _
    | json => exact .ite (.refl _) (.of_error _ _)

/-- A table of fixed shape is read steadily if its fields are. -/
theorem Record.read_steady {kind : TableKind} (h : rec.IsSteady kind.slots) (mode : Mode) :
    Steady (.record kind) (rec.read mode) := by
  intro n n' hn
  cases hn with
  | table span span' closed pairs others keys all order =>
    have hperm : others.Perm (pairs.map Prod.snd) := order.elim (fun heq => heq ▸ .refl _) And.right
    exact h.readEntries_keeps span span' closed keys all hperm
  | array span span' closed pairs all => exact h.readArray_keeps mode span span' closed all
  | _ => exact .of_error _ _

end Records

end TypeScribe

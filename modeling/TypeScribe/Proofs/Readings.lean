import TypeScribe.Proofs.Schema

/-!
# Readings that agree

Two values that hold one tree are read alike, whatever the modes of reading them are: with the same result, or
both with a fault, and with a result exactly when the tree conforms to the shape that is read. This holds of
scalars and words, and of lists, free tables and tables of fixed shape when it holds of their parts.

* `Agree`, `ReadAlike`: what two readings of one value, and two readers, have to do with a shape.
* `readList_alike`, `readFree_alike`: lists and free tables.
* `Record.read_alike`: a table of fixed shape, from its fields.
-/

namespace TypeScribe

/-! ## Readings that agree -/

/-- Two readings agree with a condition: they give the same value and it holds, or they fail and it does not. -/
inductive Agree {α : Type} (p : Prop) : Read α → Read α → Prop
  | ok (holds : p) (a : α) : Agree p (.ok a) (.ok a)
  | error (fails : ¬ p) (f g : Fault) : Agree p (.error f) (.error g)

namespace Agree

variable {α β : Type} {p q : Prop} {x y : Read α}

theorem congr (h : Agree p x y) (hpq : p ↔ q) : Agree q x y := by
  cases h with
  | ok hp a => exact .ok (hpq.mp hp) a
  | error hp f g => exact .error (mt hpq.mpr hp) f g

theorem map (h : Agree p x y) (f : α → β) : Agree p (x.map f) (y.map f) := by
  cases h with
  | ok hp a => exact .ok hp (f a)
  | error hp e e' => exact .error hp e e'

theorem mapError (h : Agree p x y) (f g : Fault → Fault) : Agree p (x.mapError f) (y.mapError g) := by
  cases h with
  | ok hp a => exact .ok hp a
  | error hp e e' => exact .error hp (f e) (g e')

/-- One reading after another agrees with both conditions. -/
theorem bind {f g : α → Read β} (h : Agree p x y) (hfg : ∀ a, x = .ok a → Agree q (f a) (g a)) :
    Agree (p ∧ q) (x >>= f) (y >>= g) := by
  cases h with
  | ok hp a => exact (hfg a rfl).congr ⟨fun hq => ⟨hp, hq⟩, And.right⟩
  | error hp e e' => exact .error (fun h => hp h.1) e e'

theorem ok_iff (h : Agree p x y) : (∃ a, x = .ok a) ↔ p := by
  cases h with
  | ok hp a => exact ⟨fun _ => hp, fun _ => ⟨a, rfl⟩⟩
  | error hp e e' => exact ⟨by rintro ⟨_, ⟨⟩⟩, fun h => absurd h hp⟩

theorem both (h : Agree p x y) :
    (p ∧ ∃ a, x = .ok a ∧ y = .ok a) ∨ (¬ p ∧ ∃ f g, x = .error f ∧ y = .error g) := by
  cases h with
  | ok hp a => exact .inl ⟨hp, a, rfl, rfl⟩
  | error hp f g => exact .inr ⟨hp, f, g, rfl, rfl⟩

end Agree

/-- Two readers of values of a shape agree, on values that hold one plain tree and are not nested deeper than a
depth, with the condition that the tree conforms. -/
def ReadAlike {α : Type} (depth : Nat) (shape : Shape) (r r' : Node → Read α) : Prop :=
  ∀ n n' t, n.height ≤ depth → n.Holds t → n'.Holds t → IsPlain shape t →
    Agree (Conforms shape t) (r n) (r' n')

theorem ReadAlike.map {α β : Type} {depth : Nat} {shape : Shape} {r r' : Node → Read α}
    (h : ReadAlike depth shape r r') (f : α → β) :
    ReadAlike depth shape (fun n => (r n).map f) (fun n => (r' n).map f) :=
  fun n n' t hd hn hn' hp => (h n n' t hd hn hn' hp).map f

theorem ReadAlike.mono {α : Type} {depth depth' : Nat} {shape : Shape} {r r' : Node → Read α}
    (h : ReadAlike depth shape r r') (hle : depth' ≤ depth) : ReadAlike depth' shape r r' :=
  fun n n' t hd => h n n' t (Nat.le_trans hd hle)

/-! ## Parts of plain trees -/

namespace IsPlain

theorem nullable {shape : Shape} {t : Tree} (h : IsPlain (.nullable shape) t) (given : t ≠ .null) :
    IsPlain shape t :=
  fun s u hs => h s u (.nullable given hs)

theorem item {shape : Shape} {items : List Tree} {t : Tree} (h : IsPlain (.list shape) (.array items))
    (ht : t ∈ items) : IsPlain shape t :=
  fun s u hs => h s u (.item ht hs)

theorem value {shape : Shape} {pairs : List (String × Tree)} {p : String × Tree}
    (h : IsPlain (.free shape) (.table pairs)) (hp : p ∈ pairs) : IsPlain shape p.2 :=
  fun s u hs => h s u (.value hp hs)

theorem textOr {shape : Shape} {pairs : List (String × Tree)} (h : IsPlain (.textOr shape) (.table pairs)) :
    IsPlain shape (.table pairs) :=
  fun s u hs => h s u (.textOr hs)

theorem scalarOr {shape : Shape} {pairs : List (String × Tree)} (h : IsPlain (.scalarOr shape) (.table pairs)) :
    IsPlain shape (.table pairs) :=
  fun s u hs => h s u (.scalarOr hs)

theorem field {kind : TableKind} {pairs : List (String × Tree)} (h : IsPlain (.record kind) (.table pairs)) :
    ∀ p ∈ pairs, ∀ slot ∈ kind.slots, p.1 ∈ slot.names → IsPlain slot.shape p.2 :=
  fun _ hp _ hslot hkey s u hs => h s u (.field hp hslot hkey hs)

theorem tag {pairs : List (String × Tree)} {p : String × Tree} (h : IsPlain .element (.table pairs)) (hp : p ∈ pairs)
    (hkey : p.1 = Shape.tagName) : IsPlain (.word Shape.tags) p.2 := by
  intro s u hs
  cases hs
  exact h _ _ (.tag hp hkey)

theorem element {kind : Kind} {before after : List (String × Tree)}
    (h : IsPlain .element (.table (before ++ (Shape.tagName, .text kind.word) :: after)))
    (tagged : kind.isElement = true) (single : ∀ p ∈ before ++ after, p.1 ≠ Shape.tagName) :
    IsPlain (.record (.part kind)) (.table (before ++ after)) :=
  fun s u hs => h s u (.element tagged single hs)

end IsPlain

/-! ## Scalars -/

section Scalars

variable {depth : Nat}

theorem readText_alike : ReadAlike depth .text readText readText := by
  intro n n' t _ hn hn' _
  cases hn <;> cases hn' <;> first | exact .ok (.text _) _ | exact .error (fun h => by cases h) _ _

theorem readPath_alike : ReadAlike depth .text readPath readPath := by
  intro n n' t _ hn hn' _
  cases hn <;> cases hn' <;> first | exact .ok (.text _) _ | exact .error (fun h => by cases h) _ _

theorem readBool_alike : ReadAlike depth .bool readBool readBool := by
  intro n n' t _ hn hn' _
  cases hn <;> cases hn' <;> first | exact .ok (.bool _) _ | exact .error (fun h => by cases h) _ _

theorem readByte_alike : ReadAlike depth .byte readByte readByte := by
  intro n n' t _ hn hn' _
  cases hn with
  | @integer span value fits =>
    cases hn' with
    | integer span' _ =>
      rw [readByte, readByte]
      by_cases hv : 0 ≤ value ∧ value < 256
      · have hb : (decide (0 ≤ value) && decide (value < 256)) = true := by simpa using hv
        rw [if_pos hb, if_pos hb]
        exact .ok (.byte hv.1 hv.2) _
      · have hb : ¬ (decide (0 ≤ value) && decide (value < 256)) = true := by simpa using hv
        rw [if_neg hb, if_neg hb, if_pos fits, if_pos fits]
        refine .error (fun hc => ?_) _ _
        cases hc with
        | byte low high => exact hv ⟨low, high⟩
  | _ =>
    cases hn'
    exact .error (fun h => by cases h) _ _

/-- Two values that hold one tree are written in code alike, if it is a scalar. -/
theorem Node.Holds.verbatim_alike {n n' : Node} {t : Tree} (hn : n.Holds t) (hn' : n'.Holds t) :
    (Conforms .scalar t ∧ ∃ text, n.verbatim? = some text ∧ n'.verbatim? = some text) ∨
      (¬ Conforms .scalar t ∧ n.verbatim? = none ∧ n'.verbatim? = none) := by
  cases hn with
  | @integer span value fits =>
    cases hn' with
    | integer span' _ =>
      have hv : ∀ s, (Node.number s (.integer value)).verbatim? = some (Number.integer value).text := by
        intro s
        rw [Node.verbatim?, if_pos (by exact fits)]
      exact .inl ⟨.scalarInteger value, _, hv _, hv _⟩
  | text span value => cases hn'; exact .inl ⟨.scalarText value, _, rfl, rfl⟩
  | bool span value => cases hn'; exact .inl ⟨.scalarBool value, _, rfl, rfl⟩
  | double span value => cases hn'; exact .inl ⟨.scalarDouble value, _, rfl, rfl⟩
  | _ =>
    cases hn'
    exact .inr ⟨by rintro ⟨⟩, rfl, rfl⟩

theorem readVerbatim_alike : ReadAlike depth .scalar readVerbatim readVerbatim := by
  intro n n' t _ hn hn' _
  rw [readVerbatim, readVerbatim]
  rcases hn.verbatim_alike hn' with ⟨hc, text, h, h'⟩ | ⟨hc, h, h'⟩ <;> rw [h, h']
  · exact .ok hc text
  · exact .error hc _ _

variable {α : Type} {variants : List (String × α)} {words : List String}

theorem findVariant_alike (hw : variants.map Prod.fst = words) (name : String) (place place' : Place) :
    Agree (Conforms (.word words) (.text name)) (findVariant variants name place)
      (findVariant variants name place') := by
  unfold findVariant
  have hlookup : (variants.lookup name).isSome = true ↔ name ∈ words := by
    rw [List.lookup_isSome_iff, ← hw, List.mem_map]
    exact exists_congr fun p => and_congr_right fun _ =>
      ⟨fun h => (eq_of_beq h).symm, fun h => beq_iff_eq.mpr h.symm⟩
  cases hl : variants.lookup name with
  | some a =>
    rw [hl] at hlookup
    exact .ok (.word (hlookup.mp rfl)) a
  | none =>
    rw [hl] at hlookup
    refine .error (fun hc => ?_) _ _
    cases hc with
    | word known => exact absurd (hlookup.mpr known) Bool.false_ne_true

theorem readVariant_alike (hw : variants.map Prod.fst = words) (mode mode' : Mode) :
    ReadAlike depth (.word words) (readVariant variants mode) (readVariant variants mode') := by
  intro n n' t _ hn hn' hp
  cases hn with
  | text span value => cases hn'; exact findVariant_alike hw value _ _
  | integer span fits => exact absurd (.integer _ _) (hp _ _ (.here _ _))
  | double span value => exact absurd (.double _ _) (hp _ _ (.here _ _))
  | _ =>
    cases hn'
    exact .error (fun h => by cases h) _ _

theorem readChoice_alike (hw : variants.map Prod.fst = words) (mode mode' : Mode) :
    ReadAlike depth (.word words) (readChoice variants mode) (readChoice variants mode') := by
  intro n n' t _ hn hn' hp
  cases hn with
  | text span value => cases hn'; exact findVariant_alike hw value _ _
  | integer span fits => exact absurd (.integer _ _) (hp _ _ (.here _ _))
  | double span value => exact absurd (.double _ _) (hp _ _ (.here _ _))
  | table span all => exact absurd (.table _ _) (hp _ _ (.here _ _))
  | _ =>
    cases hn'
    simp only [readChoice]
    cases mode.buffered <;> cases mode'.buffered <;> exact .error (fun h => by cases h) _ _

end Scalars

/-! ## Lists and free tables -/

section Containers

variable {α β : Type} {depth : Nat} {shape : Shape} {r r' : Node → Read α}

theorem readOptional_alike (h : ReadAlike depth shape r r') :
    ReadAlike depth (.nullable shape) (readOptional r) (readOptional r') := by
  intro n n' t hd hn hn' hp
  have given : ∀ {n n'}, n.height ≤ depth → n.Holds t → n'.Holds t → t ≠ .null →
      Agree (Conforms (.nullable shape) t) ((r n).map some) ((r' n').map some) := by
    intro n n' hd hn hn' hne
    refine ((h n n' t hd hn hn' (hp.nullable hne)).map some).congr ⟨.nullable, fun hc => ?_⟩
    cases hc with
    | null => exact absurd rfl hne
    | nullable hc => exact hc
  cases hn with
  | null span => cases hn'; exact .ok (.null shape) none
  | _ =>
    cases hn'
    exact given hd (by constructor <;> assumption) (by constructor <;> assumption) (by simp)

theorem readItems_alike (h : ReadAlike depth shape r r') {items items' : List Node} {trees : List Tree}
    (hi : HoldItems items trees) (hi' : HoldItems items' trees) (hd : ∀ n ∈ items, n.height ≤ depth)
    (hp : ∀ t ∈ trees, IsPlain shape t) :
    Agree (∀ t ∈ trees, Conforms shape t) (readItems r items) (readItems r' items') := by
  induction trees generalizing items items' with
  | nil =>
    cases hi
    cases hi'
    exact .ok (fun _ ht => absurd ht List.not_mem_nil) []
  | cons t trees ih =>
    cases hi with
    | cons first rest =>
      cases hi' with
      | cons first' rest' =>
        rw [List.forall_mem_cons] at hd hp
        refine ((h _ _ t hd.1 first first' hp.1).bind fun a _ =>
          (ih rest rest' hd.2 hp.2).bind fun more _ => .ok trivial (a :: more)).congr ?_
        rw [List.forall_mem_cons, and_true]

theorem readList_alike (h : ReadAlike depth shape r r') :
    ReadAlike depth (.list shape) (readList r) (readList r') := by
  intro n n' t hd hn hn' hp
  cases hn with
  | array span all =>
    cases hn' with
    | array span' all' =>
      refine ((readItems_alike h all all' (fun m hm => ?_) fun u hu => hp.item hu).bind fun as _ =>
        .ok trivial as).congr ?_
      · exact Nat.le_trans (Node.height_le_listHeight hm) (Nat.le_of_succ_le hd)
      · rw [and_true]
        exact ⟨.list, fun hc => by cases hc; assumption⟩
  | _ =>
    cases hn'
    exact .error (fun h => by cases h) _ _

theorem readFreeEntries_alike (h : ReadAlike depth shape r r') (key : β → String) (make : String → α → β)
    {entries entries' : List Entry} {pairs : List (String × Tree)} (he : HoldEntries entries pairs)
    (he' : HoldEntries entries' pairs) (hd : ∀ e ∈ entries, e.value.height ≤ depth)
    (hp : ∀ p ∈ pairs, IsPlain shape p.2) (done : List β) :
    Agree (∀ p ∈ pairs, Conforms shape p.2) (readFreeEntries key make r done entries)
      (readFreeEntries key make r' done entries') := by
  induction pairs generalizing entries entries' done with
  | nil =>
    cases he
    cases he'
    exact .ok (fun _ hp => absurd hp List.not_mem_nil) done
  | cons p pairs ih =>
    cases he with
    | cons name span first rest =>
      cases he' with
      | cons name span' first' rest' =>
        rw [List.forall_mem_cons] at hd hp
        refine ((h _ _ _ hd.1 first first' hp.1).bind fun a _ => ih rest rest' hd.2 hp.2 _).congr ?_
        rw [List.forall_mem_cons]

theorem readFree_alike (h : ReadAlike depth shape r r') (key : β → String) (make : String → α → β) :
    ReadAlike depth (.free shape) (readFree key make r) (readFree key make r') := by
  intro n n' t hd hn hn' hp
  cases hn with
  | table span all =>
    cases hn' with
    | table span' all' =>
      refine ((readFreeEntries_alike h key make all all' (fun e he => ?_) (fun p => hp.value) []).bind
        fun as _ => .ok trivial as).congr ?_
      · exact Nat.le_trans (Node.height_le_entriesHeight he) (Nat.le_of_succ_le hd)
      · rw [and_true]
        exact ⟨.free, fun hc => by cases hc; assumption⟩
  | _ =>
    cases hn'
    exact .error (fun h => by cases h) _ _

end Containers

/-! ## Tables of fixed shape -/

section Records

variable {σ : Type} {depth : Nat}

/-- Two columns read a field alike. -/
structure Slot.FitsColumns (depth : Nat) (slot : Slot) (c c' : Column σ) : Prop where
  names : c.name = slot.name ∧ c'.name = slot.name
  allNames : c.names = slot.names ∧ c'.names = slot.names
  required : c.required = slot.isRequired ∧ c'.required = slot.isRequired
  fill (s : σ) : ReadAlike depth slot.shape (c.fill · s) (c'.fill · s)

/-- Two lists of columns read fields alike, in order. -/
inductive FitColumns (depth : Nat) : List Slot → List (Column σ) → List (Column σ) → Prop
  | nil : FitColumns depth [] [] []
  | cons {slot : Slot} {c c' : Column σ} {slots : List Slot} {cs cs' : List (Column σ)}
    (first : slot.FitsColumns depth c c') (rest : FitColumns depth slots cs cs') :
    FitColumns depth (slot :: slots) (c :: cs) (c' :: cs')

variable {α : Type} {shape : Shape} {r r' : Node → Read α}

theorem Slot.FitsColumns.needed (name : String) {set : α → σ → σ} (h : ReadAlike depth shape r r') :
    (Slot.needed name shape).FitsColumns depth (.needed name r set) (.needed name r' set) where
  names := ⟨rfl, rfl⟩
  allNames := ⟨rfl, rfl⟩
  required := ⟨rfl, rfl⟩
  fill s := h.map (set · s)

theorem Slot.FitsColumns.optional (name : String) {set : α → σ → σ} (h : ReadAlike depth shape r r') :
    (Slot.optional name shape).FitsColumns depth (.optional name r set) (.optional name r' set) where
  names := ⟨rfl, rfl⟩
  allNames := ⟨rfl, rfl⟩
  required := ⟨rfl, rfl⟩
  fill s := h.map (set · s)

theorem Slot.FitsColumns.orNamed {slot : Slot} {c c' : Column σ} (h : slot.FitsColumns depth c c') (key : String) :
    (slot.orNamed key).FitsColumns depth (c.orNamed key) (c'.orNamed key) where
  names := h.names
  allNames := ⟨congrArg (· ++ [key]) h.allNames.1, congrArg (· ++ [key]) h.allNames.2⟩
  required := h.required
  fill := h.fill

/-- A key is that of no field, or that of a field which both lists of columns have. -/
theorem FitColumns.find {slots : List Slot} {cs cs' : List (Column σ)} (h : FitColumns depth slots cs cs')
    (key : String) :
    ((∀ slot ∈ slots, key ∉ slot.names) ∧ (cs.find? fun c => c.names.contains key) = none ∧
        (cs'.find? fun c => c.names.contains key) = none) ∨
      ∃ slot ∈ slots, ∃ c c', key ∈ slot.names ∧ (cs.find? fun c => c.names.contains key) = some c ∧
        (cs'.find? fun c => c.names.contains key) = some c' ∧ slot.FitsColumns depth c c' := by
  induction h with
  | nil => exact .inl ⟨fun _ h => absurd h List.not_mem_nil, rfl, rfl⟩
  | @cons slot c c' slots cs cs' first rest ih =>
    have found : ∀ (d : Column σ) ds, d.names = slot.names → key ∈ slot.names →
        ((d :: ds).find? fun c => c.names.contains key) = some d := fun d ds hd hkey =>
      List.find?_cons_of_pos (by rw [hd]; exact List.contains_iff_mem.mpr hkey)
    have passed : ∀ (d : Column σ) ds, d.names = slot.names → key ∉ slot.names →
        ((d :: ds).find? fun c => c.names.contains key) = ds.find? fun c => c.names.contains key :=
      fun d ds hd hkey => List.find?_cons_of_neg (by rw [hd]; exact mt List.contains_iff_mem.mp hkey)
    by_cases hkey : key ∈ slot.names
    · exact .inr ⟨slot, List.mem_cons_self, c, c', hkey, found c cs first.allNames.1 hkey,
        found c' cs' first.allNames.2 hkey, first⟩
    · rw [passed c cs first.allNames.1 hkey, passed c' cs' first.allNames.2 hkey]
      rcases ih with ⟨hnone, h⟩ | ⟨other, hmem, h⟩
      · exact .inl ⟨List.forall_mem_cons.mpr ⟨hkey, hnone⟩, h⟩
      · exact .inr ⟨other, List.mem_cons_of_mem _ hmem, h⟩

/-- A field that must be there is missing in both or in neither. -/
theorem FitColumns.missing_iff {slots : List Slot} {cs cs' : List (Column σ)} (h : FitColumns depth slots cs cs')
    (taken : List String) :
    ((cs.find? fun c => c.required && !taken.contains c.name) = none ↔
        ∀ slot ∈ slots, slot.isRequired = true → slot.name ∈ taken) ∧
      ((cs'.find? fun c => c.required && !taken.contains c.name) = none ↔
        ∀ slot ∈ slots, slot.isRequired = true → slot.name ∈ taken) := by
  have one : ∀ {slot : Slot} {c : Column σ}, c.name = slot.name → c.required = slot.isRequired →
      (¬ (c.required && !taken.contains c.name) = true ↔ (slot.isRequired = true → slot.name ∈ taken)) := by
    intro slot c hname hrequired
    rw [hname, hrequired]
    simp
  simp only [List.find?_eq_none]
  induction h with
  | nil => simp
  | cons first rest ih =>
    simp only [List.forall_mem_cons, ih.1, ih.2, one first.names.1 first.required.1,
      one first.names.2 first.required.2, and_self]

/-- The entries are those of different fields which are not taken, and their values have the shapes of these. -/
def Fillable (slots : List Slot) (taken : List String) (pairs : List (String × Tree)) : Prop :=
  (∀ p ∈ pairs, ∃ slot ∈ slots, p.1 ∈ slot.names ∧ slot.name ∉ taken ∧ Conforms slot.shape p.2) ∧
    pairs.Pairwise fun p q => ∀ slot ∈ slots, p.1 ∈ slot.names → q.1 ∉ slot.names

theorem fillable_cons {kind : TableKind} (slot : Slot) (hslot : slot ∈ kind.slots) {p : String × Tree}
    (hkey : p.1 ∈ slot.names) {taken : List String} {pairs : List (String × Tree)} :
    Fillable kind.slots taken (p :: pairs) ↔
      slot.name ∉ taken ∧ Conforms slot.shape p.2 ∧ Fillable kind.slots (slot.name :: taken) pairs := by
  have only : ∀ other ∈ kind.slots, p.1 ∈ other.names → other = slot :=
    fun other ho hk => TableKind.slot_unique ho hslot hk hkey
  have own : slot.name ∈ slot.names := List.mem_cons_self
  simp only [Fillable, List.forall_mem_cons, List.pairwise_cons]
  constructor
  · rintro ⟨⟨⟨other, ho, hk, ht, hc⟩, hrest⟩, honce, hpairs⟩
    obtain rfl := only other ho hk
    refine ⟨ht, hc, fun q hq => ?_, hpairs⟩
    obtain ⟨slot', hs', hk', ht', hc'⟩ := hrest q hq
    refine ⟨slot', hs', hk', fun hm => ?_, hc'⟩
    rcases List.mem_cons.mp hm with hname | hm
    · have hown : other.name ∈ slot'.names := hname ▸ List.mem_cons_self
      obtain rfl := TableKind.slot_unique hs' hslot hown own
      exact honce q hq _ hslot hkey hk'
    · exact ht' hm
  · rintro ⟨ht, hc, hrest, hpairs⟩
    refine ⟨⟨⟨slot, hslot, hkey, ht, hc⟩, fun q hq => ?_⟩, fun q hq other ho hk hkq => ?_, hpairs⟩
    · obtain ⟨slot', hs', hk', ht', hc'⟩ := hrest q hq
      exact ⟨slot', hs', hk', fun hm => ht' (List.mem_cons_of_mem _ hm), hc'⟩
    · obtain rfl := only other ho hk
      obtain ⟨slot', hs', hk', ht', -⟩ := hrest q hq
      obtain rfl := TableKind.slot_unique hs' ho hk' hkq
      exact ht' List.mem_cons_self

variable {kind : TableKind} {rec rec' : Record σ}

/-- Taking entries agrees with their being those of different fields. -/
theorem fillEntries_alike (hf : FitColumns depth kind.slots rec.columns rec'.columns)
    {entries entries' : List Entry} {pairs : List (String × Tree)} (he : HoldEntries entries pairs)
    (he' : HoldEntries entries' pairs) (hd : ∀ e ∈ entries, e.value.height ≤ depth)
    (hp : ∀ p ∈ pairs, ∀ slot ∈ kind.slots, p.1 ∈ slot.names → IsPlain slot.shape p.2)
    (taken : List String) (s : σ) :
    Agree (Fillable kind.slots taken pairs) (rec.fillEntries taken s entries)
      (rec'.fillEntries taken s entries') := by
  induction pairs generalizing entries entries' taken s with
  | nil =>
    cases he
    cases he'
    exact .ok ⟨fun _ hm => absurd hm List.not_mem_nil, .nil⟩ _
  | cons p pairs ih =>
    cases he with
    | @cons name span n t _ _ first rest =>
      cases he' with
      | cons name span' first' rest' =>
        rw [List.forall_mem_cons] at hd hp
        rw [Record.fillEntries, Record.fillEntries, Record.column?, Record.column?]
        rcases hf.find name with ⟨hnone, hc, hc'⟩ | ⟨slot, hslot, c, c', hkey, hc, hc', fits⟩
        · rw [hc, hc']
          refine .error (fun h => ?_) _ _
          obtain ⟨slot, hslot, hkey, -⟩ := h.1 _ List.mem_cons_self
          exact hnone slot hslot hkey
        · -- A key that is known: its field is taken already, or its value is read and the others after it.
          simp only [hc, hc', fits.names.1, fits.names.2]
          by_cases ht : slot.name ∈ taken
          · rw [if_pos (List.contains_iff_mem.mpr ht), if_pos (List.contains_iff_mem.mpr ht)]
            exact .error (fun h => ((fillable_cons slot hslot hkey).mp h).1 ht) _ _
          · rw [if_neg (mt List.contains_iff_mem.mp ht), if_neg (mt List.contains_iff_mem.mp ht)]
            refine ((fits.fill s _ _ t hd.1 first first' (hp.1 slot hslot hkey)).bind fun s' _ =>
              ih rest rest' hd.2 hp.2 _ s').congr ?_
            rw [fillable_cons slot hslot hkey]
            exact ⟨fun h => ⟨ht, h⟩, And.right⟩

/-- The fields that are taken in the end are those that were taken and those of the entries. -/
theorem taken_of_fillEntries (hf : FitColumns depth kind.slots rec.columns rec'.columns)
    {entries : List Entry} {pairs : List (String × Tree)} (he : HoldEntries entries pairs)
    {taken taken' : List String} {s s' : σ} (h : rec.fillEntries taken s entries = .ok (taken', s'))
    {slot : Slot} (hslot : slot ∈ kind.slots) :
    slot.name ∈ taken' ↔ slot.name ∈ taken ∨ ∃ p ∈ pairs, p.1 ∈ slot.names := by
  induction pairs generalizing entries taken s with
  | nil =>
    cases he
    obtain ⟨rfl, -⟩ := Prod.mk.inj (Except.ok.inj h)
    simp
  | cons p pairs ih =>
    cases he with
    | @cons name span n t _ _ first rest =>
      rw [Record.fillEntries, Record.column?] at h
      rcases hf.find name with ⟨-, hc, -⟩ | ⟨found, hfound, c, c', hkey, hc, -, fits⟩
      · rw [hc] at h
        cases h
      · simp only [hc] at h
        split at h
        · cases h
        · cases hs : c.fill n s with
          | error f =>
            rw [hs] at h
            cases h
          | ok s₁ =>
            rw [hs] at h
            have own : slot.name = found.name ↔ name ∈ slot.names := by
              refine ⟨fun hn => ?_, fun hn => ?_⟩
              · have hsame : slot.name ∈ found.names := hn ▸ List.mem_cons_self
                exact TableKind.slot_unique hslot hfound List.mem_cons_self hsame ▸ hkey
              · rw [TableKind.slot_unique hslot hfound hn hkey]
            rw [ih rest h, List.mem_cons, fits.names.1, own]
            simp only [List.mem_cons, exists_eq_or_imp]
            exact or_right_comm.trans (or_comm.trans (by rw [or_left_comm]))

theorem conforms_record_iff {pairs : List (String × Tree)} :
    Conforms (.record kind) (.table pairs) ↔ Fillable kind.slots [] pairs ∧
      ∀ slot ∈ kind.slots, slot.isRequired = true → ∃ p ∈ pairs, p.1 ∈ slot.names := by
  constructor
  · intro h
    cases h with
    | record known once complete shapes =>
      refine ⟨⟨fun p hp => ?_, once⟩, complete⟩
      obtain ⟨slot, hslot, hkey⟩ := known p hp
      exact ⟨slot, hslot, hkey, List.not_mem_nil, shapes p hp slot hslot hkey⟩
  · rintro ⟨⟨hall, once⟩, complete⟩
    refine .record (fun p hp => ?_) once complete fun p hp slot hslot hkey => ?_
    · obtain ⟨slot, hslot, hkey, -⟩ := hall p hp
      exact ⟨slot, hslot, hkey⟩
    · obtain ⟨slot', hslot', hkey', -, hc⟩ := hall p hp
      exact TableKind.slot_unique hslot hslot' hkey hkey' ▸ hc

section Entries

variable {r : Record σ} {entries : List Entry} (span : Span)

theorem Record.readEntries_of_error {f : Fault} (h : r.fillEntries [] r.blank entries = .error f) :
    r.readEntries span entries true = .error f := by
  rw [Record.readEntries, h]
  rfl

variable {taken : List String} {s : σ} (h : r.fillEntries [] r.blank entries = .ok (taken, s))
include h

theorem Record.readEntries_of_complete (hm : r.missing? taken = none) :
    r.readEntries span entries true = .ok s := by
  rw [Record.readEntries, h]
  simp only [bind, Except.bind, readEnd, if_true, hm]
  rfl

theorem Record.readEntries_of_missing {c : Column σ} (hm : r.missing? taken = some c) :
    r.readEntries span entries true = .error (.misfit (.missingField c.name) (.ending span)) := by
  rw [Record.readEntries, h]
  simp only [bind, Except.bind, readEnd, if_true, hm]

end Entries

/-- A table of fixed shape is read alike when its fields are. -/
theorem Record.read_alike (hf : FitColumns depth kind.slots rec.columns rec'.columns)
    (hblank : rec.blank = rec'.blank) (mode mode' : Mode) :
    ReadAlike (depth + 1) (.record kind) (rec.read mode) (rec'.read mode') := by
  intro n n' t hd hn hn' hp
  cases hn with
  | @table span entries pairs all =>
    cases hn' with
    | @table span' entries' _ all' =>
      have hle : ∀ e ∈ entries, e.value.height ≤ depth := fun e he =>
        Nat.le_trans (Node.height_le_entriesHeight he) (Nat.le_of_succ_le_succ hd)
      have hfit := fillEntries_alike hf all all' hle hp.field [] rec.blank
      rw [Record.read, Record.read, conforms_record_iff]
      rcases hfit.both with ⟨hfill, ⟨taken, s⟩, hx, hy⟩ | ⟨hfill, f, g, hx, hy⟩ <;> rw [hblank] at hy
      · have hmissing := hf.missing_iff taken
        have hcomplete : (∀ slot ∈ kind.slots, slot.isRequired = true → slot.name ∈ taken) ↔
            ∀ slot ∈ kind.slots, slot.isRequired = true → ∃ p ∈ pairs, p.1 ∈ slot.names := by
          refine forall₂_congr fun slot hslot => imp_congr_right fun _ => ?_
          rw [taken_of_fillEntries hf all hx hslot]
          simp
        rw [hcomplete, ← Record.missing?, ← Record.missing?] at hmissing
        cases hm : rec.missing? taken with
        | none =>
          have hc := hmissing.1.mp hm
          rw [readEntries_of_complete span hx hm, readEntries_of_complete span' hy (hmissing.2.mpr hc)]
          exact .ok ⟨hfill, hc⟩ s
        | some c =>
          have hc := mt hmissing.1.mpr (by rw [hm]; exact Option.some_ne_none c)
          obtain ⟨c', hm'⟩ := Option.ne_none_iff_exists'.mp (mt hmissing.2.mp hc)
          rw [readEntries_of_missing span hx hm, readEntries_of_missing span' hy hm']
          exact .error (fun h => hc h.2) _ _
      · rw [readEntries_of_error span hx, readEntries_of_error span' hy]
        exact .error (fun h => hfill h.1) f g
  | array span all => exact absurd (.record _ _) (hp _ _ (.here _ _))
  | _ =>
    cases hn'
    exact .error (fun h => by cases h) _ _

end Records

end TypeScribe

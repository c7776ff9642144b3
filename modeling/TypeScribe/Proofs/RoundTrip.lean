import TypeScribe.Proofs.Canonical
import TypeScribe.Proofs.Conformity
import TypeScribe.Proofs.Formats

/-!
# Reading documents back

The tree that says a document is read as this document in both forms, if in no ordered list a name comes twice.

* `Gives`: any value that holds a tree, and is not nested too deep, is read as something.
* `Record.gives`: a table of fixed shape is read from its fields, in order.
* `readElementWithin_gives`: elements, by induction on how deep they may be nested.
* `Document.read_tree`: documents.
-/

namespace TypeScribe

variable {depth : Nat}

/-- Any value that holds a tree and is not nested deeper than a depth is read as something. -/
def Gives {α : Type} (depth : Nat) (read : Node → Read α) (t : Tree) (a : α) : Prop :=
  ∀ n, n.height ≤ depth → n.Holds t → read n = .ok a

theorem Gives.map {α β : Type} {read : Node → Read α} {t : Tree} {a : α} (h : Gives depth read t a) (f : α → β) :
    Gives depth (fun n => (read n).map f) t (f a) :=
  fun n hd hn => congrArg (Except.map f) (h n hd hn)

theorem Gives.mono {α : Type} {read : Node → Read α} {t : Tree} {a : α} {depth' : Nat} (h : Gives depth read t a)
    (hle : depth' ≤ depth) : Gives depth' read t a :=
  fun n hd => h n (Nat.le_trans hd hle)

/-! ## Scalars -/

theorem readText_gives (text : String) : Gives depth readText (.text text) text := by
  intro n _ hn
  cases hn
  rfl

theorem readPath_gives (text : String) : Gives depth readPath (.text text) text := by
  intro n _ hn
  cases hn
  rfl

theorem readVerbatim_gives (text : String) : Gives depth readVerbatim (.text text) text := by
  intro n _ hn
  cases hn
  rfl

theorem readBool_gives (value : Bool) : Gives depth readBool (.bool value) value := by
  intro n _ hn
  cases hn
  rfl

theorem readByte_gives (value : UInt8) : Gives depth readByte (.integer value.toNat) value := by
  intro n _ hn
  cases hn with
  | integer span fits =>
    have hlt : (value.toNat : Int) < 256 := Int.ofNat_lt.mpr value.toNat_lt
    rw [readByte, if_pos (by simp [hlt])]
    simp

theorem readChoice_gives {α : Type} {variants : List (String × α)} {name : String} {a : α}
    (h : variants.lookup name = some a) (mode : Mode) : Gives depth (readChoice variants mode) (.text name) a := by
  intro n _ hn
  cases hn
  rw [readChoice, findVariant, h]

theorem readVisibility_gives (v : Visibility) (mode : Mode) :
    Gives depth (readVisibility mode) (.text v.word) v :=
  readChoice_gives (by cases v <;> decide) mode

/-! ## Lists and free tables -/

section Containers

variable {α β : Type} {read : Node → Read α}

theorem readOptional_gives {t : Tree} {a : α} (h : Gives depth read t a) (given : t ≠ .null) :
    Gives depth (readOptional read) t (some a) := by
  intro n hd hn
  have hread : (read n).map some = .ok (some a) := congrArg (Except.map some) (h n hd hn)
  cases hn with
  | null => exact absurd rfl given
  | _ => exact hread

theorem readItems_gives {tree : α → Tree} {as : List α} (h : ∀ a ∈ as, Gives depth read (tree a) a)
    {items : List Node} (hi : HoldItems items (as.map tree)) (hd : ∀ n ∈ items, n.height ≤ depth) :
    readItems read items = .ok as := by
  induction as generalizing items with
  | nil =>
    cases hi
    rfl
  | cons a as ih =>
    cases hi with
    | cons first rest =>
      rw [List.forall_mem_cons] at h hd
      rw [readItems, h.1 _ hd.1 first, ih h.2 rest hd.2]
      rfl

theorem readList_gives {tree : α → Tree} {as : List α} (h : ∀ a ∈ as, Gives depth read (tree a) a) :
    Gives depth (readList read) (.array (as.map tree)) as := by
  intro n hd hn
  cases hn with
  | array span all =>
    have hle := fun m hm => Nat.le_trans (Node.height_le_listHeight (n := m) hm) (Nat.le_of_succ_le hd)
    rw [readList, readItems_gives h all hle]
    rfl

theorem putEntry_of_not_mem {key : β → String} {b : β} {done : List β} (h : key b ∉ done.map key) :
    putEntry key b done = done ++ [b] := by
  induction done with
  | nil => rfl
  | cons c done ih =>
    rw [List.map_cons, List.mem_cons, not_or] at h
    rw [putEntry, if_neg (Ne.symm h.1), ih h.2, List.cons_append]

theorem readFreeEntries_gives {key : β → String} {make : String → α → β} {value : β → α} {tree : β → Tree}
    (hmake : ∀ b, make (key b) (value b) = b) {bs done : List β}
    (h : ∀ b ∈ bs, Gives depth read (tree b) (value b)) (distinct : ((done ++ bs).map key).Nodup)
    {entries : List Entry} (he : HoldEntries entries (bs.map fun b => (key b, tree b)))
    (hd : ∀ e ∈ entries, e.value.height ≤ depth) :
    readFreeEntries key make read done entries = .ok (done ++ bs) := by
  induction bs generalizing entries done with
  | nil =>
    cases he
    rw [readFreeEntries, List.append_nil]
  | cons b bs ih =>
    cases he with
    | cons name span first rest =>
      rw [List.forall_mem_cons] at h hd
      have hnew : key b ∉ done.map key := by
        rw [List.map_append, List.map_cons, List.nodup_middle] at distinct
        exact fun hm => (List.nodup_cons.mp distinct).1 (List.mem_append_left _ hm)
      have happend : done ++ b :: bs = done ++ [b] ++ bs := by rw [List.append_assoc, List.singleton_append]
      rw [happend] at distinct ⊢
      rw [readFreeEntries, h.1 _ hd.1 first]
      show readFreeEntries key make read (putEntry key (make (key b) (value b)) done) _ = _
      rw [hmake, putEntry_of_not_mem hnew, ih h.2 distinct rest hd.2]

theorem readFree_gives {key : β → String} {make : String → α → β} {value : β → α} {tree : β → Tree} {bs : List β}
    (h : ∀ b ∈ bs, Gives depth read (tree b) (value b)) (hmake : ∀ b, make (key b) (value b) = b)
    (distinct : (bs.map key).Nodup) :
    Gives depth (readFree key make read) (.table (bs.map fun b => (key b, tree b))) bs := by
  intro n hd hn
  cases hn with
  | table span all =>
    have hle := fun e he => Nat.le_trans (Node.height_le_entriesHeight (e := e) he) (Nat.le_of_succ_le hd)
    have hkeys : (([] ++ bs).map key).Nodup := distinct
    rw [readFree, readFreeEntries_gives hmake h hkeys all hle]
    rfl

theorem readFields_gives {fields : Fields} (distinct : fields.names.Nodup) :
    Gives depth readFields fields.tree fields :=
  readFree_gives (fun f _ => readText_gives f.type) (fun _ => rfl) distinct

end Containers

/-! ## Tables of fixed shape -/

section Records

variable {σ : Type}

/-- Columns, in order, take a result to another one on the entries of a table. -/
inductive Spelled (depth : Nat) : List (Column σ) → σ → List (String × Tree) → σ → Prop
  | nil (s : σ) : Spelled depth [] s [] s
  | given {c : Column σ} {cs : List (Column σ)} {s s₁ s' : σ} {t : Tree} {pairs : List (String × Tree)}
    (fill : Gives depth (c.fill · s) t s₁) (rest : Spelled depth cs s₁ pairs s') :
    Spelled depth (c :: cs) s ((c.name, t) :: pairs) s'
  | leftOut {c : Column σ} {cs : List (Column σ)} {s s' : σ} {pairs : List (String × Tree)}
    (optional : c.required = false) (rest : Spelled depth cs s pairs s') : Spelled depth (c :: cs) s pairs s'

variable {r : Record σ}

/-- The name of a column is not that of one before it. -/
theorem Record.name_not_mem_before (distinct : r.known.Nodup) {before cs : List (Column σ)} {c : Column σ}
    (hsplit : r.columns = before ++ c :: cs) : ∀ d ∈ before, c.name ∉ d.names := by
  rw [Record.known, hsplit, List.flatMap_append, List.flatMap_cons, List.nodup_append'] at distinct
  exact fun d hd hmem => distinct.2.2 (List.mem_flatMap.mpr ⟨d, hd, hmem⟩)
    (List.mem_append_left _ List.mem_cons_self)

theorem Record.column?_of_append (distinct : r.known.Nodup) {before cs : List (Column σ)} {c : Column σ}
    (hsplit : r.columns = before ++ c :: cs) : r.column? c.name = some c := by
  refine List.find?_eq_some_iff_append.mpr
    ⟨List.contains_iff_mem.mpr List.mem_cons_self, before, cs, hsplit, fun d hd => ?_⟩
  rw [Bool.not_eq_true', List.contains_eq_mem, decide_eq_false_iff_not]
  exact Record.name_not_mem_before distinct hsplit d hd

/-- Entries that spell the last columns are taken one after the other, and all that must be there are. -/
theorem Record.fillEntries_spelled (distinct : r.known.Nodup) {before cs : List (Column σ)}
    (hsplit : r.columns = before ++ cs) {s s' : σ} {pairs : List (String × Tree)}
    (h : Spelled depth cs s pairs s') {entries : List Entry} (he : HoldEntries entries pairs)
    (hd : ∀ e ∈ entries, e.value.height ≤ depth) {taken : List String}
    (htaken : ∀ name ∈ taken, ∃ c ∈ before, c.name = name) :
    ∃ taken', r.fillEntries taken s entries = .ok (taken', s') ∧ taken ⊆ taken' ∧
      ∀ c ∈ cs, c.required = true → c.name ∈ taken' := by
  -- The fields that are taken already are columns before those that are left, so none of these is taken twice.
  induction h generalizing before entries taken with
  | nil s =>
    cases he
    exact ⟨taken, rfl, List.Subset.refl _, fun _ hc => absurd hc List.not_mem_nil⟩
  | @given c cs s s₁ s' t pairs fill rest ih =>
    have hnext : r.columns = (before ++ [c]) ++ cs := by rw [hsplit, List.append_assoc, List.singleton_append]
    cases he with
    | @cons name span n _ entries _ first others =>
      rw [List.forall_mem_cons] at hd
      have hfree : ¬ taken.contains c.name = true := by
        intro hm
        obtain ⟨d, hdb, hname⟩ := htaken _ (List.contains_iff_mem.mp hm)
        exact Record.name_not_mem_before distinct hsplit d hdb (hname ▸ List.mem_cons_self)
      have hnow : ∀ name ∈ c.name :: taken, ∃ d ∈ before ++ [c], d.name = name := by
        refine List.forall_mem_cons.mpr ⟨⟨c, List.mem_append_right _ List.mem_cons_self, rfl⟩, fun name hm => ?_⟩
        obtain ⟨d, hdb, hname⟩ := htaken name hm
        exact ⟨d, List.mem_append_left _ hdb, hname⟩
      obtain ⟨taken', hfill, hsub, hall⟩ := ih hnext others hd.2 hnow
      refine ⟨taken', ?_, List.Subset.trans (List.subset_cons_self _ _) hsub,
        List.forall_mem_cons.mpr ⟨fun _ => hsub List.mem_cons_self, hall⟩⟩
      rw [Record.fillEntries, Record.column?_of_append distinct hsplit]
      simp only [if_neg hfree]
      have hread : c.fill n s = .ok s₁ := fill n hd.1 first
      rw [hread]
      exact hfill
  | @leftOut c cs s s' pairs optional rest ih =>
    have hnext : r.columns = (before ++ [c]) ++ cs := by rw [hsplit, List.append_assoc, List.singleton_append]
    obtain ⟨taken', hfill, hsub, hall⟩ := ih hnext he hd fun name hm => by
        obtain ⟨d, hdb, hname⟩ := htaken name hm
        exact ⟨d, List.mem_append_left _ hdb, hname⟩
    exact ⟨taken', hfill, hsub, List.forall_mem_cons.mpr
      ⟨fun hreq => absurd (optional.symm.trans hreq) Bool.false_ne_true, hall⟩⟩

/-- A table that spells the columns of a record is read as what they make of it. -/
theorem Record.gives (distinct : r.known.Nodup) {s : σ} {pairs : List (String × Tree)}
    (h : Spelled depth r.columns r.blank pairs s) (mode : Mode) :
    Gives (depth + 1) (r.read mode) (.table pairs) s := by
  intro n hd hn
  cases hn with
  | @table span entries pairs all =>
    have hle : ∀ e ∈ entries, e.value.height ≤ depth := fun e he =>
      Nat.le_trans (Node.height_le_entriesHeight he) (Nat.le_of_succ_le_succ hd)
    have hcolumns : r.columns = [] ++ r.columns := rfl
    obtain ⟨taken, hfill, -, hall⟩ := Record.fillEntries_spelled distinct hcolumns h all hle fun name hm =>
      absurd hm (List.not_mem_nil (a := name))
    have hmissing : r.missing? taken = none := by
      refine List.find?_eq_none.mpr fun c hc hneeded => ?_
      rw [Bool.and_eq_true, Bool.not_eq_true'] at hneeded
      exact absurd (List.contains_iff_mem.mpr (hall c hc hneeded.1)) (Bool.eq_false_iff.mp hneeded.2)
    exact Record.readEntries_of_complete span hfill hmissing

end Records

section Columns

variable {σ α : Type} {read : Node → Read α} {name : String} {cs : List (Column σ)} {s s' : σ}
  {pairs : List (String × Tree)} {t : Tree} {a : α}

theorem Spelled.needed {put : α → σ → σ} (h : Gives depth read t a) (rest : Spelled depth cs (put a s) pairs s') :
    Spelled depth (.needed name read put :: cs) s ((name, t) :: pairs) s' :=
  .given (h.map (put · s)) rest

theorem Spelled.set {put : α → σ → σ} (h : Gives depth read t a) (rest : Spelled depth cs (put a s) pairs s') :
    Spelled depth (.optional name read put :: cs) s ((name, t) :: pairs) s' :=
  .given (h.map (put · s)) rest

/-- A field that may be null, set or left out. -/
theorem Spelled.setOption {put : Option α → σ → σ} {tree : α → Tree} {o : Option α}
    (h : ∀ a ∈ o, Gives depth read (tree a) a) (given : ∀ a, tree a ≠ .null) (unset : put none s = s)
    (rest : Spelled depth cs (put o s) pairs s') :
    Spelled depth (.optional name (readOptional read) put :: cs) s (optionalEntry name (o.map tree) ++ pairs) s' := by
  cases o with
  | none => exact .leftOut rfl (unset ▸ rest)
  | some a => exact .set (readOptional_gives (h a rfl) (given a)) rest

/-- A field for a text that may be null, set or left out. -/
theorem Spelled.setText {put : Option String → σ → σ} {o : Option String} (unset : put none s = s)
    (rest : Spelled depth cs (put o s) pairs s') :
    Spelled depth (.optional name (readOptional readText) put :: cs) s
      (optionalEntry name (textTree? o) ++ pairs) s' :=
  .setOption (fun a _ => readText_gives a) (fun _ => by simp) unset rest

theorem Spelled.setLastText {put : Option String → σ → σ} {o : Option String} (unset : put none s = s) :
    Spelled depth [.optional name (readOptional readText) put] s (optionalEntry name (textTree? o)) (put o s) := by
  rw [← List.append_nil (optionalEntry name _)]
  exact .setText unset (.nil _)

end Columns

/-! ## Values and members -/

theorem readValueWithin_gives (mode : Mode) (depth : Nat) :
    ∀ v : Value, v.KeysDistinct → Gives depth (readValueWithin mode depth) v.tree v := by
  induction depth with
  | zero => exact fun _ _ n hd => absurd n.height_pos (Nat.not_lt.mpr hd)
  | succ depth ih =>
    intro v hv
    cases v with
    | raw text =>
      intro n _ hn
      rw [Value.tree] at hn
      cases hn
      exact readValueWithin_verbatim rfl mode
    | object entries =>
      have hrecord : Gives (depth + 1) ((objectRecord mode (readValueWithin mode depth)).read mode)
          (Value.object entries).tree entries := by
        rw [Value.tree, ObjectLiteral.entries_eq]
        refine Record.gives ?_ ?_ mode
        · exact TableKind.nodup_names .object
        · exact .set (readOptional_gives (readChoice_gives rfl mode) (by simp)) <|
            .set (readFree_gives (fun e he => ih e.value (hv.of_mem e he)) (fun e => by cases e; rfl) hv.own) (.nil _)
      intro n hd hn
      have hread := hrecord n hd hn
      rw [Value.tree] at hn
      cases hn with
      | table span all => exact congrArg (Except.map Value.object) hread

theorem readValue_gives {v : Value} (h : v.KeysDistinct) (mode : Mode) : Gives depth (readValue mode) v.tree v :=
  fun n _ hn => readValueWithin_gives mode n.height v h n (Nat.le_refl _) hn

theorem readMember_gives (m : EnumMember) : Gives (depth + 1) readMember m.tree m := by
  intro n hd hn
  cases m with
  | bare name =>
    cases hn
    rfl
  | valued name value =>
    have hrecord : Gives (depth + 1) (memberRecord.read ⟨.json, false⟩) (EnumMember.valued name value).tree
        (name, value) := by
      refine Record.gives ?_ ?_ _
      · exact Kind.nodup_names .enumMember
      · exact .needed (readText_gives name) <| .needed (readVerbatim_gives value) (.nil _)
    have hread := hrecord n hd hn
    cases hn with
    | table span all => exact congrArg (Except.map _) hread

theorem readMembers_gives (members : List EnumMember) :
    Gives depth (readList readMember) (EnumMember.listTree members) members :=
  readList_gives fun m _ => (readMember_gives m).mono (Nat.le_succ depth)

theorem readTexts_gives (texts : List String) :
    Gives depth (readList readText) (.array (texts.map .text)) texts :=
  readList_gives fun text _ => readText_gives text

/-! ## Elements -/

theorem propertyRecord_gives (mode : Mode) (p : ClassProperty) :
    Gives (depth + 1) ((propertyRecord mode).read mode) p.tree p := by
  obtain ⟨name, visibility, isStatic, isReadonly, type, value⟩ := p
  refine Record.gives ?_ ?_ mode
  · exact Kind.nodup_names .property
  · refine .needed (readText_gives name) ?_
    refine .setOption (fun v _ => readVisibility_gives v mode) (fun _ => by simp) rfl ?_
    refine .set (readBool_gives isStatic) <| .set (readBool_gives isReadonly) <| .setText rfl ?_
    cases value with
    | none => exact .leftOut rfl (.nil _)
    | some value => exact .set (readVerbatim_gives value) (.nil _)

section Nested

variable {nested : Node → Read Element}

theorem readBody_gives {body : List Statement} (h : ∀ e ∈ elementsOf body, Gives depth nested e.tree e) :
    Gives depth (readBody nested) (.array (bodyTrees body)) body := by
  rw [bodyTrees_eq]
  refine readList_gives fun item hitem => ?_
  cases item with
  | raw text =>
    intro n _ hn
    cases hn
    rfl
  | element e =>
    have helement : Gives depth nested e.tree e := h e (mem_elementsOf.mpr hitem)
    intro n hd hn
    have hread : (nested n).map Statement.element = .ok (.element e) :=
      congrArg (Except.map Statement.element) (helement n hd hn)
    obtain ⟨fields, htree⟩ := e.tree_tagged
    rw [Statement.tree, htree] at hn
    cases hn with
    | table span all => exact hread

theorem methodRecord_gives {m : Method} (distinct : m.head.signature.args.names.Nodup)
    (h : ∀ e ∈ elementsOf m.body, Gives depth nested e.tree e) (mode : Mode) :
    Gives (depth + 1) ((methodRecord mode nested).read mode) m.tree m := by
  obtain ⟨head, body⟩ := m
  refine Record.gives ?_ ?_ mode
  · exact Kind.nodup_names .method
  · refine .needed (readText_gives head.name) ?_
    refine .setOption (fun v _ => readVisibility_gives v mode) (fun _ => by simp) rfl ?_
    exact .set (readBool_gives head.isStatic) <| .set (readFields_gives distinct) <| .setText rfl <|
      .set (readBody_gives h) (.nil _)

end Nested

/-- The tag is not among the keys that columns take. -/
theorem Spelled.untagged {σ : Type} {cs : List (Column σ)} {s s' : σ} {pairs : List (String × Tree)}
    (h : Spelled depth cs s pairs s') (hcs : ∀ c ∈ cs, c.name ≠ Shape.tagName) :
    ∀ p ∈ pairs, p.1 ≠ Shape.tagName := by
  induction h with
  | nil => exact fun _ hp => absurd hp List.not_mem_nil
  | given _ _ ih =>
    rw [List.forall_mem_cons] at hcs ⊢
    exact ⟨hcs.1, ih hcs.2⟩
  | leftOut _ _ ih => exact ih (List.forall_mem_cons.mp hcs).2

theorem readVariant_word {kind : Kind} (h : kind.isElement = true) (mode : Mode) (span : Span) :
    readVariant elementTags mode (.text span kind.word) = .ok kind := by
  have hlookup : elementTags.lookup kind.word = some kind := by
    cases kind <;> first | (exact absurd h Bool.false_ne_true) | decide
  rw [readVariant, findVariant, hlookup]

/-- An element is read from its tag and what the record of its kind makes of the other entries. -/
theorem readElementWithin_tagged {σ : Type} {r : Record σ} (kind : Kind) (s : σ) (hkind : kind.isElement = true)
    (hknown : r.known = kind.slots.flatMap Slot.names) {format : Format} (buffered : Bool) {make : σ → Element}
    (hread : ∀ n, readKind ⟨format, true⟩ (readElementWithin format depth true) kind n =
      (r.read ⟨format, true⟩ n).map make)
    {fields : List (String × Tree)} (h : Spelled depth r.columns r.blank fields s) :
    Gives (depth + 1) (readElementWithin format (depth + 1) buffered) (taggedTree kind fields) (make s) := by
  have untagged : ∀ p ∈ fields, p.1 ≠ Shape.tagName := by
    refine h.untagged fun c hc htag => ?_
    have hmem : c.name ∈ r.known := List.mem_flatMap.mpr ⟨c, hc, List.mem_cons_self⟩
    rw [hknown] at hmem
    obtain ⟨slot, hslot, hname⟩ := List.mem_flatMap.mp hmem
    exact Kind.tagName_not_mem hkind slot hslot (htag ▸ hname)
  have hrecord : Gives (depth + 1) (r.read ⟨format, true⟩) (.table fields) s :=
    Record.gives (hknown ▸ kind.nodup_names) h _
  intro n hd hn
  cases hn with
  | @table span _ _ all =>
    cases all with
    | @cons _ span' value _ rest _ first others =>
      cases first with
      | text at_ _ =>
        have htag : takeTag ⟨format, buffered⟩ none ([] ++ ⟨⟨Shape.tagName, span'⟩, .text at_ kind.word⟩ :: rest) =
            .ok (some kind, [] ++ rest) :=
          takeTag_single (others.isField untagged) rfl (readVariant_word hkind _ at_)
        have hle := Nat.le_trans (height_without span [] rest ⟨⟨Shape.tagName, span'⟩, _⟩) hd
        have hfields := (hread _).trans (congrArg (Except.map make) (hrecord _ hle (.table span others)))
        exact (readElementWithin_of_takeTag htag span).trans (congrArg (Except.mapError _) hfields)

theorem readElementWithin_gives (format : Format) (depth : Nat) (buffered : Bool) :
    ∀ e : Element, e.NamesDistinct → Gives depth (readElementWithin format depth buffered) e.tree e := by
  -- Induction on the depth and not on the element: what an element holds is read with one level less.
  induction depth generalizing buffered with
  | zero => exact fun _ _ n hd => absurd n.height_pos (Nat.not_lt.mpr hd)
  | succ depth ih =>
    intro e he
    have inner : ∀ body ∈ e.bodies, ∀ x ∈ elementsOf body,
        Gives depth (readElementWithin format depth true) x.tree x :=
      fun body hbody x hx => ih true x (he.of_bodies hbody x hx)
    have own := he.own
    cases e with
    | constDecl c =>
      have hkeys : c.value.KeysDistinct := List.forall_mem_map.mp own
      rw [Element.tree]
      refine readElementWithin_tagged .constDecl c rfl (by rfl) buffered (fun _ => rfl) ?_
      exact .needed (readText_gives c.name) <| .needed (readValue_gives hkeys _) <|
        .set (readBool_gives c.exported) (.nil _)
    | typeDecl t =>
      rw [Element.tree]
      refine readElementWithin_tagged .typeDecl t rfl (by rfl) buffered (fun _ => rfl) ?_
      exact .needed (readText_gives t.name) <| .needed (readText_gives t.value) <|
        .set (readBool_gives t.exported) (.nil _)
    | interfaceDecl i =>
      have hnames : i.properties.names.Nodup := List.forall_mem_singleton.mp own
      rw [Element.tree]
      refine readElementWithin_tagged .interfaceDecl i rfl (by rfl) buffered (fun _ => rfl) ?_
      exact .needed (readText_gives i.name) <| .given ((readFields_gives hnames).map _) <|
        .set (readBool_gives i.exported) (.nil _)
    | functionDecl h body =>
      have hnames : h.signature.args.names.Nodup := List.forall_mem_singleton.mp own
      have hbody := readBody_gives (List.forall_mem_singleton.mp inner)
      rw [Element.tree]
      refine readElementWithin_tagged .functionDecl (h, body) rfl (by rfl) buffered (fun _ => rfl) ?_
      exact .needed (readText_gives h.name) <| .set (readFields_gives hnames) <| .setText rfl <|
        .set hbody <| .set (readBool_gives h.exported) (.nil _)
    | arrowFunction s body =>
      have hnames : s.args.names.Nodup := List.forall_mem_singleton.mp own
      have hbody := readBody_gives (List.forall_mem_singleton.mp inner)
      rw [Element.tree]
      refine readElementWithin_tagged .arrowFunction (s, body) rfl (by rfl) buffered (fun _ => rfl) ?_
      exact .set (readFields_gives hnames) <| .setText rfl <| .set hbody (.nil _)
    | classDecl h methods =>
      have hmethods : ∀ m ∈ methods, Gives depth
          ((methodRecord ⟨format, true⟩ (readElementWithin format depth true)).read ⟨format, true⟩) m.tree m :=
        fun m hm => (methodRecord_gives (own _ (List.mem_map_of_mem hm))
          (inner _ (List.mem_map_of_mem hm)) _).mono (Nat.le_succ depth)
      have hproperties : ∀ p ∈ h.properties, Gives depth
          ((propertyRecord ⟨format, true⟩).read ⟨format, true⟩) p.tree p :=
        fun p _ => (propertyRecord_gives _ p).mono (Nat.le_succ depth)
      rw [Element.tree, methodTrees_eq]
      refine readElementWithin_tagged .classDecl (h, methods) rfl (by rfl) buffered (fun _ => rfl) ?_
      exact .needed (readText_gives h.name) <| .setText rfl <| .set (readTexts_gives h.implements) <|
        .set (readList_gives hproperties) <| .set (readList_gives hmethods) <|
        .set (readBool_gives h.exported) (.nil _)
    | enumDecl e =>
      rw [Element.tree]
      refine readElementWithin_tagged .enumDecl e rfl (by rfl) buffered (fun _ => rfl) ?_
      exact .needed (readText_gives e.name) <| .set (readMembers_gives e.members) <|
        .set (readBool_gives e.exported) (.nil _)
    | ifElse condition body otherwise =>
      have hbody := readBody_gives (inner body List.mem_cons_self)
      cases otherwise with
      | none =>
        rw [Element.tree]
        refine readElementWithin_tagged .ifElse ⟨condition, body, none⟩ rfl (by rfl) buffered (fun _ => rfl) ?_
        exact .needed (readText_gives condition) <| .set hbody <| .leftOut rfl (.nil _)
      | some otherwise =>
        have helse := readBody_gives (inner otherwise (List.mem_cons_of_mem _ List.mem_cons_self))
        rw [Element.tree]
        refine readElementWithin_tagged .ifElse ⟨condition, body, some otherwise⟩ rfl (by rfl) buffered
          (fun _ => rfl) ?_
        exact .needed (readText_gives condition) <| .set hbody <|
          .set (readOptional_gives helse (by simp)) (.nil _)
    | forLoop c body =>
      have hbody := readBody_gives (List.forall_mem_singleton.mp inner)
      rw [Element.tree]
      refine readElementWithin_tagged .forLoop (c, body) rfl (by rfl) buffered (fun _ => rfl) ?_
      exact .set (readText_gives c.initializer) <| .set (readText_gives c.condition) <|
        .set (readText_gives c.incrementor) <| .set hbody (.nil _)
    | forOfLoop i body =>
      have hbody := readBody_gives (List.forall_mem_singleton.mp inner)
      rw [Element.tree]
      refine readElementWithin_tagged .forOfLoop (i, body) rfl (by rfl) buffered (fun _ => rfl) ?_
      exact .needed (readText_gives i.binder) <| .needed (readText_gives i.iterable) <| .set hbody (.nil _)

theorem readElement_gives {e : Element} (h : e.NamesDistinct) (mode : Mode) :
    Gives depth (readElement mode) e.tree e :=
  fun n _ hn => readElementWithin_gives mode.format n.height mode.buffered e h n (Nat.le_refl _) hn

/-! ## Documents -/

theorem readOutput_gives (s : OutputSettings) (mode : Mode) :
    Gives (depth + 1) (outputRecord.read mode) s.tree s := by
  refine Record.gives ?_ ?_ mode
  · exact TableKind.nodup_names .output
  · refine .setOption (fun path _ => readPath_gives path) (fun _ => by simp) rfl ?_
    exact .set (readByte_gives s.indent) <| .set (readBool_gives s.tabs) <| .setLastText rfl

theorem readService_gives {m : ServiceModel} (h : ∀ names ∈ m.nameLists, names.Nodup) (mode : Mode) :
    Gives (depth + 1) (readService mode) m.tree m := by
  rw [ServiceModel.nameLists, List.forall_mem_append, List.forall_mem_map, List.forall_mem_map,
    List.forall_mem_append] at h
  have entityType : ∀ e ∈ m.entityTypes, Gives depth (entityTypeRecord.read mode) e.tree e := by
    refine fun e he => Gives.mono (Record.gives ?_ ?_ mode) (Nat.le_succ depth)
    · exact TableKind.nodup_names .entityType
    · exact .needed (readText_gives e.name) <| .set (readTexts_gives e.keys) <|
        .set (readFields_gives (h.1 e he)) (.nil _)
  have entitySet : ∀ s ∈ m.entitySets, Gives depth (entitySetRecord.read mode) s.tree s := by
    refine fun s _ => Gives.mono (Record.gives ?_ ?_ mode) (Nat.le_succ depth)
    · exact TableKind.nodup_names .entitySet
    · exact .needed (readText_gives s.name) <| .needed (readText_gives s.entityType) (.nil _)
  have enumType : ∀ e ∈ m.enumTypes, Gives depth (enumTypeRecord.read mode) e.tree e := by
    refine fun e _ => Gives.mono (Record.gives ?_ ?_ mode) (Nat.le_succ depth)
    · exact TableKind.nodup_names .enumType
    · exact .needed (readText_gives e.name) <| .set (readMembers_gives e.members) (.nil _)
  have operation : ∀ o : Operation, o.parameters.names.Nodup →
      Gives depth (operationRecord.read mode) o.tree o := by
    refine fun o ho => Gives.mono (Record.gives ?_ ?_ mode) (Nat.le_succ depth)
    · exact TableKind.nodup_names .operation
    · exact .needed (readText_gives o.name) <| .set (readFields_gives ho) <| .setLastText rfl
  refine Record.gives ?_ ?_ mode
  · exact TableKind.nodup_names .service
  · exact .needed (readText_gives m.name) <| .set (readList_gives entityType) <| .set (readList_gives entitySet) <|
      .set (readList_gives enumType) <| .set (readList_gives fun o ho => operation o (h.2.1 o ho)) <|
      .set (readList_gives fun o ho => operation o (h.2.2 o ho)) (.nil _)

theorem readDocument_gives {d : Document} (h : d.NamesDistinct) (format : Format) :
    Gives (depth + 1) (readDocument format) d.tree d := by
  refine Record.gives ?_ ?_ _
  · exact TableKind.nodup_names .document
  · refine .set ((readOutput_gives d.output _).mono (Nat.le_succ depth)) ?_
    refine .setOption (fun m hm => (readService_gives (h.1 m hm) _).mono (Nat.le_succ depth))
      (fun _ => by simp [ServiceModel.tree]) rfl ?_
    exact .set (readList_gives fun e he => readElement_gives (h.2 e he) _) (.nil _)

/-- The tree that says a document is read as this document, and a text in either form that delivers the tree is
decoded to it, if in no ordered list of the document a name comes twice. -/
theorem Document.read_tree {d : Document} (h : d.NamesDistinct) (format : Format) :
    (∀ n, n.Holds d.tree → readDocument format n = .ok d) ∧
      ∀ source : Source, Delivers format source.text d.tree → Document.decode source format = .ok d := by
  have read : ∀ n, n.Holds d.tree → readDocument format n = .ok d :=
    fun n hn => readDocument_gives h format n (Nat.le_succ n.height) hn
  refine ⟨read, fun source hdelivers => ?_⟩
  obtain ⟨n, hreads, hn⟩ := hdelivers
  exact Document.decode_of_reads hreads (read n hn)

/-- An arrow function of two parameters is read back, with a second branch that is there and empty. -/
theorem Document.read_tree_arrow :
    let d : Document := ⟨{}, none, [.arrowFunction { args := [⟨"a", "A"⟩, ⟨"b", "B"⟩] }
      [.element (.ifElse "a" [] (some []))]]⟩
    let s : Span := ⟨0, 0⟩
    let n := Node.table s
      [⟨⟨"output", s⟩, .table s [⟨⟨"indent", s⟩, .number s (.integer 2)⟩, ⟨⟨"tabs", s⟩, .bool s false⟩] true⟩,
       ⟨⟨"elements", s⟩, .array s [.table s
         [⟨⟨"type", s⟩, .text s "arrowFunction"⟩,
          ⟨⟨"args", s⟩, .table s [⟨⟨"a", s⟩, .text s "A"⟩, ⟨⟨"b", s⟩, .text s "B"⟩] true⟩,
          ⟨⟨"body", s⟩, .array s [.table s [⟨⟨"type", s⟩, .text s "if"⟩, ⟨⟨"condition", s⟩, .text s "a"⟩,
            ⟨⟨"body", s⟩, .array s [] true⟩, ⟨⟨"else", s⟩, .array s [] true⟩] true] true⟩] true] true⟩] true
    d.NamesDistinct ∧ n.Holds d.tree ∧ readDocument .json n = .ok d ∧ readDocument .toml n = .ok d := by
  intro d s n
  have distinct : d.NamesDistinct := by
    refine ⟨fun m hm => absurd hm (Option.not_mem_none m), List.forall_mem_singleton.mpr ?_⟩
    rw [Element.NamesDistinct]
    decide
  have fields : HoldEntries [⟨⟨"a", s⟩, .text s "A"⟩, ⟨⟨"b", s⟩, .text s "B"⟩] [("a", .text "A"), ("b", .text "B")] :=
    .cons _ _ (.text _ _) <| .cons _ _ (.text _ _) .nil
  have branch : Node.Holds (.table s [⟨⟨"type", s⟩, .text s "if"⟩, ⟨⟨"condition", s⟩, .text s "a"⟩,
      ⟨⟨"body", s⟩, .array s [] true⟩, ⟨⟨"else", s⟩, .array s [] true⟩] true)
        (Element.ifElse "a" [] (some [])).tree :=
    .table _ <| .cons _ _ (.text _ _) <| .cons _ _ (.text _ _) <| .cons _ _ (.array _ .nil) <|
      .cons _ _ (.array _ .nil) .nil
  have hn : n.Holds d.tree :=
    .table _ <| .cons _ _ (.table _ <| .cons _ _ (.integer _ (by decide)) <| .cons _ _ (.bool _ _) .nil) <|
      .cons _ _ (.array _ <| .cons (.table _ <| .cons _ _ (.text _ _) <| .cons _ _ (.table _ fields) <|
        .cons _ _ (.array _ <| .cons branch .nil) .nil) .nil) .nil
  exact ⟨distinct, hn, (Document.read_tree distinct .json).1 n hn, (Document.read_tree distinct .toml).1 n hn⟩

end TypeScribe

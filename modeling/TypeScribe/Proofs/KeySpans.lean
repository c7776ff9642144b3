import TypeScribe.Proofs.Cursors

/-!
# Where keys stand

Every key of a tree that was read stands in the text at its span: there a text in quotes, or a part without quotes, was
read as its name, from the beginning of the span to its end. This holds in both forms, also for trees that were not read
to their end; only the key under which a moment is handed over stands nowhere.

* `Node.keys`: the keys in a tree.
* `Json.Keeps`, `Json.AllKeep`: what the readers of nested objects keep, by induction on their steps.
* `Toml.Table.change_preserves`: what is kept by a change of a table is kept at the end of a path of keys.
* `Json.parse_keys`, `Toml.parse_keys`: each key of a tree was read at its span.
-/

namespace TypeScribe

open Cursor (Reaches)

/-- A place that reading a text comes to. -/
def Cursor.IsIn (c : Cursor) (cs : List Char) : Prop := (Cursor.start cs).Reaches c

namespace Node

mutual

/-- The keys in a tree, at any depth. -/
def keys : Node → List Key
  | .array _ items _ => itemKeys items
  | .table _ entries _ => entryKeys entries
  | _ => []

/-- The keys in some trees. -/
def itemKeys : List Node → List Key
  | [] => []
  | n :: rest => n.keys ++ itemKeys rest

/-- The keys of some entries and those in their values. -/
def entryKeys : List Entry → List Key
  | [] => []
  | ⟨key, n⟩ :: rest => key :: (n.keys ++ entryKeys rest)

end

/-- The key of an entry and those in its value are among those of all entries. -/
theorem mem_entryKeys {entries : List Entry} {e : Entry} (he : e ∈ entries) {k : Key}
    (hk : k = e.key ∨ k ∈ e.value.keys) : k ∈ entryKeys entries := by
  induction entries with
  | nil => cases he
  | cons f rest ih =>
    obtain ⟨key, n⟩ := f
    rw [entryKeys, List.mem_cons, List.mem_append]
    rcases List.mem_cons.mp he with rfl | he
    · exact hk.imp id .inl
    · exact .inr (.inr (ih he))

end Node

open Node (itemKeys entryKeys)

/-! ## Nested objects -/

namespace Json

variable {cs : List Char}

/-- A key was read at a place of a text: behind a quote its name was read, and its span goes up to where this ends. -/
def ReadsKey (cs : List Char) (k : Key) : Prop :=
  ∃ (c : Cursor) (rest : List Char) (after : Cursor), c.IsIn cs ∧ c.ahead = '"' :: rest ∧
    scanText ⟨c.offset + 1, rest⟩ = .ok (k.name, after) ∧ k.span = ⟨c.offset, after.offset⟩

/-- What was read has only keys that were read, and reading goes on at a place of the text, if it does. -/
structure Keeps {α : Type} (cs : List Char) (keys : α → List Key) (p : Partial α) : Prop where
  keys : ∀ k ∈ keys p.1, ReadsKey cs k
  place : ∀ next, p.2 = .ok next → next.IsIn cs

theorem Keeps.stopped {α : Type} {keys : α → List Key} {a : α} (h : ∀ k ∈ keys a, ReadsKey cs k) {err : ReadFault} :
    Keeps cs keys (a, .error err) :=
  ⟨h, fun _ h => (nomatch h)⟩

theorem Keeps.none {α : Type} {keys : α → List Key} {a : α} (h : keys a = []) {err : ReadFault} :
    Keeps cs keys (a, .error err) :=
  .stopped fun _ hk => absurd (h ▸ hk) List.not_mem_nil

theorem scalar_keeps {α : Type} {start : Nat} {make : Span → α → Node} (hmake : ∀ s a, (make s a).keys = [])
    {x : Except ReadFault (α × Cursor)} (hx : ∀ a next, x = .ok (a, next) → next.IsIn cs) :
    Keeps cs Node.keys (scalar start make x) := by
  cases x with
  | error err => exact .none rfl
  | ok found =>
    refine ⟨fun k hk => absurd (hmake _ _ ▸ hk) List.not_mem_nil, fun next h => ?_⟩
    exact Except.ok.inj h ▸ hx found.1 found.2 rfl

theorem wordValue_keeps {word : String} (hword : word.toList.all (·.utf8Size = 1) = true) {c : Cursor} (hc : c.IsIn cs)
    {make : Span → Node} (hmake : ∀ s, (make s).keys = []) : Keeps cs Node.keys (wordValue word c make) := by
  refine scalar_keeps (fun s _ => hmake s) fun a next h => ?_
  obtain ⟨after, hscan, heq⟩ : ∃ after, scanWord word.toList c = .ok after ∧ ((), after) = (a, next) := by
    cases hs : scanWord word.toList c with
    | error err => rw [hs] at h; cases h
    | ok after => rw [hs] at h; exact ⟨after, rfl, Except.ok.inj h⟩
  obtain ⟨-, rfl⟩ := Prod.mk.inj heq
  exact hc.trans (scanWord_reaches (fun w hw => of_decide_eq_true (List.all_eq_true.mp hword w hw)) hscan)

theorem container_keeps {α : Type} (keys : List α → List Key) {start : Nat} {make : Span → List α → Bool → Node}
    (hmake : ∀ s as closed, (make s as closed).keys = keys as) {inner : Partial (List α)} (h : Keeps cs keys inner) :
    Keeps cs Node.keys (container start make inner) := by
  obtain ⟨as, ending⟩ := inner
  cases ending with
  | error err => exact .stopped fun k hk => h.keys k (hmake _ _ _ ▸ hk)
  | ok next => exact ⟨fun k hk => h.keys k (hmake _ _ _ ▸ hk), fun _ h' => h.place _ h'⟩

theorem skipBlanks_isIn {c : Cursor} (hc : c.IsIn cs) : (skipBlanks c).IsIn cs := hc.trans (.skip _ c)

/-- All readers of one step less keep keys and places. -/
structure AllKeep (cs : List Char) (fuel : Nat) : Prop where
  node : ∀ depth c, c.IsIn cs → Keeps cs Node.keys (readNode fuel depth c)
  items : ∀ depth isFirst c, c.IsIn cs → Keeps cs itemKeys (readItems fuel depth isFirst c)
  item : ∀ depth c, c.IsIn cs → Keeps cs itemKeys (readItem fuel depth c)
  entries : ∀ depth isFirst c, c.IsIn cs → Keeps cs entryKeys (readEntries fuel depth isFirst c)
  entry : ∀ depth c rest, c.IsIn cs → c.ahead = '"' :: rest → Keeps cs entryKeys (readEntry fuel depth c)

theorem readNode_keeps {fuel depth : Nat} (ih : AllKeep cs fuel) {c : Cursor} (hc : c.IsIn cs) :
    Keeps cs Node.keys (readNode (fuel + 1) depth c) := by
  have hc := skipBlanks_isIn hc
  rw [readNode]
  split
  · exact .none rfl
  · exact wordValue_keeps (by decide) hc fun _ => rfl
  · exact wordValue_keeps (by decide) hc fun _ => rfl
  · exact wordValue_keeps (by decide) hc fun _ => rfl
  · rename_i rest hahead
    have hquote := hc.trans (.narrow hahead (by decide))
    exact scalar_keeps (fun _ _ => rfl) fun _ _ h => hquote.trans (scanText_reaches h)
  · rename_i rest hahead
    have hsign := hc.trans (.narrow hahead (by decide))
    exact scalar_keeps (fun _ _ => rfl) fun _ _ h => hsign.trans (scanNumber_reaches h)
  · rename_i rest hahead
    split
    · exact .none rfl
    · exact container_keeps itemKeys (fun _ _ _ => rfl) (ih.items _ _ _ (hc.trans (.narrow hahead (by decide))))
  · rename_i rest hahead
    split
    · exact .none rfl
    · exact container_keeps entryKeys (fun _ _ _ => rfl) (ih.entries _ _ _ (hc.trans (.narrow hahead (by decide))))
  · split
    · exact scalar_keeps (fun _ _ => rfl) fun _ _ h => hc.trans (scanNumber_reaches h)
    · exact .none rfl

theorem readItems_keeps {fuel depth : Nat} {isFirst : Bool} (ih : AllKeep cs fuel) {c : Cursor} (hc : c.IsIn cs) :
    Keeps cs itemKeys (readItems (fuel + 1) depth isFirst c) := by
  have hc := skipBlanks_isIn hc
  rw [readItems.eq_def]
  dsimp only
  split
  · exact .none rfl
  · rename_i rest hahead
    exact ⟨fun _ hk => absurd hk List.not_mem_nil, fun _ h => Except.ok.inj h ▸ hc.trans (.narrow hahead (by decide))⟩
  · exact ih.item _ _ hc
  · rename_i rest hahead
    have hnext := skipBlanks_isIn (hc.trans (.narrow hahead (by decide)))
    split
    · exact .none rfl
    · exact .none rfl
    · exact ih.item _ _ hnext
  · exact .none rfl

theorem readItem_keeps {fuel depth : Nat} (ih : AllKeep cs fuel) {c : Cursor} (hc : c.IsIn cs) :
    Keeps cs itemKeys (readItem (fuel + 1) depth c) := by
  have hnode := ih.node depth c hc
  rw [readItem]
  split
  · rename_i n err hread
    rw [hread] at hnode
    exact .stopped fun k hk => hnode.keys k (by simpa [itemKeys] using hk)
  · rename_i n next hread
    rw [hread] at hnode
    have hmore := ih.items depth false next (hnode.place next rfl)
    refine ⟨fun k hk => ?_, hmore.place⟩
    rw [itemKeys] at hk
    exact (List.mem_append.mp hk).elim (hnode.keys k) (hmore.keys k)

theorem readEntries_keeps {fuel depth : Nat} {isFirst : Bool} (ih : AllKeep cs fuel) {c : Cursor} (hc : c.IsIn cs) :
    Keeps cs entryKeys (readEntries (fuel + 1) depth isFirst c) := by
  have hc := skipBlanks_isIn hc
  rw [readEntries.eq_def]
  dsimp only
  split
  · exact .none rfl
  · rename_i rest hahead
    exact ⟨fun _ hk => absurd hk List.not_mem_nil, fun _ h => Except.ok.inj h ▸ hc.trans (.narrow hahead (by decide))⟩
  · rename_i rest hahead
    exact ih.entry _ _ rest hc hahead
  · exact .none rfl
  · rename_i rest hahead
    have hnext := skipBlanks_isIn (hc.trans (.narrow hahead (by decide)))
    split
    · exact .none rfl
    · rename_i more hmore
      exact ih.entry _ _ more hnext hmore
    · exact .none rfl
    · exact .none rfl
  · exact .none rfl

theorem readEntry_keeps {fuel depth : Nat} (ih : AllKeep cs fuel) {c : Cursor} {rest : List Char} (hc : c.IsIn cs)
    (hahead : c.ahead = '"' :: rest) : Keeps cs entryKeys (readEntry (fuel + 1) depth c) := by
  have hkey : ∀ name after, scanText ⟨c.offset + 1, c.ahead.drop 1⟩ = .ok (name, after) →
      ReadsKey cs ⟨name, ⟨c.offset, after.offset⟩⟩ ∧ after.IsIn cs := by
    intro name after hscan
    rw [hahead, List.drop_one, List.tail_cons] at hscan
    exact ⟨⟨c, rest, after, hc, hahead, hscan, rfl⟩,
      (hc.trans (.narrow hahead (by decide))).trans (scanText_reaches hscan)⟩
  have halone : ∀ {k : Key}, ReadsKey cs k → ∀ err, Keeps cs entryKeys ([⟨k, .unread⟩], .error err) :=
    fun hread _ => .stopped fun _ hk => List.mem_singleton.mp hk ▸ hread
  rw [readEntry]
  split
  · exact .none rfl
  · rename_i name after hscan
    obtain ⟨hread, hafter⟩ := hkey name after hscan
    have hcolon := skipBlanks_isIn hafter
    dsimp only
    split
    · rename_i more hmore
      have hnode := ih.node depth _ (hcolon.trans (.narrow hmore (by decide)))
      split
      · rename_i n err hvalue
        rw [hvalue] at hnode
        refine .stopped fun k hk => ?_
        rw [entryKeys, List.mem_cons, entryKeys, List.append_nil] at hk
        rcases hk with rfl | hk
        · exact hread
        · exact hnode.keys k hk
      · rename_i n next hvalue
        rw [hvalue] at hnode
        have hothers := ih.entries depth false next (hnode.place next rfl)
        refine ⟨fun k hk => ?_, hothers.place⟩
        rw [entryKeys, List.mem_cons, List.mem_append] at hk
        rcases hk with rfl | hk | hk
        · exact hread
        · exact hnode.keys k hk
        · exact hothers.keys k hk
    · exact halone hread _
    · exact halone hread _

/-- Without fuel nothing is read, and with one step more the readers keep what they keep with less. -/
theorem allKeep (cs : List Char) (fuel : Nat) : AllKeep cs fuel := by
  induction fuel with
  | zero =>
    refine ⟨fun _ _ _ => ?_, fun _ _ _ _ => ?_, fun _ _ _ => ?_, fun _ _ _ _ => ?_, fun _ _ _ _ _ => ?_⟩
    · rw [readNode]; exact .none rfl
    · rw [readItems]; exact .none rfl
    · rw [readItem]; exact .none rfl
    · rw [readEntries]; exact .none rfl
    · rw [readEntry]; exact .none rfl
  | succ fuel ih =>
    exact ⟨fun _ _ hc => readNode_keeps ih hc, fun _ _ _ hc => readItems_keeps ih hc,
      fun _ _ hc => readItem_keeps ih hc, fun _ _ _ hc => readEntries_keeps ih hc,
      fun _ _ _ hc hahead => readEntry_keeps ih hc hahead⟩

/-- Each key of a tree was read from the text, at its span. -/
theorem parse_keys {k : Key} (h : k ∈ (parse cs).1.keys) : ReadsKey cs k :=
  ((allKeep cs _).node _ _ (.refl _)).keys k h

end Json

/-! ## Tables with headers -/

namespace Toml

variable {P : Key → Prop}

theorem mem_itemKeys_items {k : Key} {items : List Item} :
    k ∈ itemKeys (itemNodes items) ↔ ∃ i ∈ items, k ∈ i.node.keys := by
  induction items with
  | nil => simp [itemNodes, itemKeys]
  | cons i rest ih => simp [itemNodes, itemKeys, ih]

theorem mem_itemKeys_tables {k : Key} {tables : List Table} :
    k ∈ itemKeys (tableNodes tables) ↔ ∃ t ∈ tables, k ∈ t.node.keys := by
  induction tables with
  | nil => simp [tableNodes, itemKeys]
  | cons t rest ih => simp [tableNodes, itemKeys, ih]

theorem mem_entryKeys_rows {k : Key} {rows : List Row} :
    k ∈ entryKeys (rowEntries rows) ↔ ∃ r ∈ rows, k = r.key ∨ k ∈ r.item.node.keys := by
  induction rows with
  | nil => simp [rowEntries, entryKeys]
  | cons r rest ih =>
    obtain ⟨key, item⟩ := r
    simp [rowEntries, entryKeys, ih, or_assoc]

theorem Table.keys_node (t : Table) : t.node.keys = entryKeys (rowEntries t.rows) := by
  cases t
  rfl

/-- All keys of an item have a property. -/
def Item.All (P : Key → Prop) (i : Item) : Prop := ∀ k ∈ i.node.keys, P k

/-- All keys of a table have a property. -/
def Table.All (P : Key → Prop) (t : Table) : Prop := ∀ k ∈ t.node.keys, P k

theorem Item.all_array {span : Span} {items : List Item} : (Item.array span items).All P ↔ ∀ i ∈ items, i.All P := by
  refine ⟨fun h i hi k hk => h k ?_, fun h k hk => ?_⟩
  · exact mem_itemKeys_items.mpr ⟨i, hi, hk⟩
  · obtain ⟨i, hi, hk⟩ := mem_itemKeys_items.mp hk
    exact h i hi k hk

theorem Item.all_tables {span : Span} {tables : List Table} :
    (Item.tables span tables).All P ↔ ∀ t ∈ tables, t.All P := by
  refine ⟨fun h t ht k hk => h k ?_, fun h k hk => ?_⟩
  · exact mem_itemKeys_tables.mpr ⟨t, ht, hk⟩
  · obtain ⟨t, ht, hk⟩ := mem_itemKeys_tables.mp hk
    exact h t ht k hk

namespace Table

theorem all_iff {t : Table} : t.All P ↔ ∀ r ∈ t.rows, P r.key ∧ r.item.All P := by
  rw [Table.All, keys_node]
  refine ⟨fun h r hr => ⟨?_, fun k hk => ?_⟩, fun h k hk => ?_⟩
  · exact h _ (mem_entryKeys_rows.mpr ⟨r, hr, .inl rfl⟩)
  · exact h k (mem_entryKeys_rows.mpr ⟨r, hr, .inr hk⟩)
  · obtain ⟨r, hr, rfl | hk⟩ := mem_entryKeys_rows.mp hk
    · exact (h r hr).1
    · exact (h r hr).2 k hk

namespace All

theorem of_no_rows {t : Table} (h : t.rows = []) : t.All P :=
  all_iff.mpr fun _ hr => absurd (h ▸ hr) List.not_mem_nil

theorem find? {t : Table} (h : t.All P) {name : String} {item : Item} (hitem : t.find? name = some item) :
    item.All P := by
  obtain ⟨r, hr, rfl⟩ := Option.map_eq_some_iff.mp hitem
  exact (all_iff.mp h r (List.mem_of_find?_eq_some hr)).2

theorem append {t : Table} (h : t.All P) {key : Key} (hkey : P key) {item : Item} (hitem : item.All P) :
    (t.append key item).All P := by
  refine all_iff.mpr fun r hr => ?_
  rcases List.mem_append.mp hr with hr | hr
  · exact all_iff.mp h r hr
  · obtain rfl := List.mem_singleton.mp hr
    exact ⟨hkey, hitem⟩

theorem set {t : Table} (h : t.All P) (name : String) {item : Item} (hitem : item.All P) : (t.set name item).All P := by
  refine all_iff.mpr fun r hr => ?_
  obtain ⟨old, hold, rfl⟩ := List.mem_map.mp hr
  obtain ⟨hkey, holds⟩ := all_iff.mp h old hold
  split
  · exact ⟨hkey, hitem⟩
  · exact ⟨hkey, holds⟩

theorem erase {t : Table} (h : t.All P) (name : String) : (t.erase name).All P :=
  all_iff.mpr fun r hr => all_iff.mp h r (List.mem_filter.mp hr).1

end All

/-- A change of a table, and what comes with it, keeps a property of all keys. -/
def Preserves {α : Type} (P : Key → Prop) (Q : α → Prop) (f : Table → Option (α × Table)) : Prop :=
  ∀ t a t', t.All P → f t = some (a, t') → Q a ∧ t'.All P

variable {α : Type} {Q : α → Prop}

theorem changeLast_preserves {f : Table → Option (α × Table)} (hf : Preserves P Q f) {ts ts' : List Table} {a : α}
    (hts : ∀ t ∈ ts, t.All P) (h : changeLast f ts = some (a, ts')) : Q a ∧ ∀ t ∈ ts', t.All P := by
  induction ts generalizing ts' with
  | nil => cases h
  | cons t rest ih =>
    rw [List.forall_mem_cons] at hts
    cases rest with
    | nil =>
      obtain ⟨⟨b, t'⟩, hchange, heq⟩ := Option.map_eq_some_iff.mp h
      obtain ⟨rfl, rfl⟩ := Prod.mk.inj heq
      obtain ⟨ha, ht'⟩ := hf t b t' hts.1 hchange
      exact ⟨ha, List.forall_mem_singleton.mpr ht'⟩
    | cons s rest =>
      obtain ⟨⟨b, rest'⟩, hchange, heq⟩ := Option.map_eq_some_iff.mp h
      obtain ⟨rfl, rfl⟩ := Prod.mk.inj heq
      obtain ⟨ha, hrest'⟩ := ih hts.2 hchange
      exact ⟨ha, List.forall_mem_cons.mpr ⟨hts.1, hrest'⟩⟩

/-- What keeps a property of all keys in one table does so at the end of a path of such keys. -/
theorem change_preserves {dotted : Bool} {f : Table → Option (α × Table)} (hf : Preserves P Q f) {path : List Key}
    (hpath : ∀ k ∈ path, P k) : Preserves P Q (change dotted f path) := by
  induction path with
  | nil => exact hf
  | cons key path ih =>
    rw [List.forall_mem_cons] at hpath
    intro t a t' ht h
    rw [change] at h
    split at h
    · obtain ⟨⟨b, inner⟩, hchange, h⟩ := Option.bind_eq_some_iff.mp h
      obtain ⟨rfl, rfl⟩ := Prod.mk.inj (Option.some.inj h)
      obtain ⟨ha, hinner⟩ := ih hpath.2 _ _ _ (.of_no_rows rfl) hchange
      exact ⟨ha, ht.append hpath.1 hinner⟩
    · rename_i old hfind
      split at h
      · cases h
      · obtain ⟨⟨b, inner⟩, hchange, h⟩ := Option.bind_eq_some_iff.mp h
        obtain ⟨rfl, rfl⟩ := Prod.mk.inj (Option.some.inj h)
        obtain ⟨ha, hinner⟩ := ih hpath.2 _ _ _ (ht.find? hfind) hchange
        exact ⟨ha, ht.set _ hinner⟩
    · rename_i span all hfind
      obtain ⟨⟨b, all'⟩, hchange, h⟩ := Option.bind_eq_some_iff.mp h
      obtain ⟨rfl, rfl⟩ := Prod.mk.inj (Option.some.inj h)
      obtain ⟨ha, hall⟩ := changeLast_preserves (ih hpath.2) (Item.all_tables.mp (ht.find? hfind)) hchange
      exact ⟨ha, ht.set _ (Item.all_tables.mpr hall)⟩
    · cases h

theorem assign_preserves {path : List Key} {key : Key} {item : Item} {t t' : Table} (hpath : ∀ k ∈ path, P k)
    (hkey : P key) (hitem : item.All P) (ht : t.All P) (h : t.assign path key item = some t') : t'.All P := by
  obtain ⟨⟨u, _⟩, hchange, rfl⟩ := Option.map_eq_some_iff.mp h
  refine (change_preserves (Q := fun _ : Unit => True) (fun inner u inner' hinner hadd => ?_) hpath _ _ _ ht hchange).2
  split at hadd
  · cases hadd
  · obtain ⟨-, rfl⟩ := Prod.mk.inj (Option.some.inj hadd)
    exact ⟨trivial, hinner.append hkey hitem⟩

end Table

namespace Assembly

/-- All keys of a document that is being read have a property. -/
structure All (P : Key → Prop) (a : Assembly) : Prop where
  root : a.root.All P
  current : a.current.All P
  path : ∀ header, a.header = some header → ∀ k ∈ header.path, P k
  key : ∀ header, a.header = some header → P header.key

theorem start_all : start.All P :=
  ⟨.of_no_rows rfl, .of_no_rows rfl, fun _ h => (nomatch h), fun _ h => (nomatch h)⟩

theorem All.assign {a a' : Assembly} (ha : a.All P) {path : List Key} {key : Key} {item : Item}
    (hpath : ∀ k ∈ path, P k) (hkey : P key) (hitem : item.All P) (h : a.assign path key item = some a') :
    a'.All P := by
  obtain ⟨current, hassign, h⟩ := Option.bind_eq_some_iff.mp h
  obtain rfl := Option.some.inj h
  exact { ha with current := Table.assign_preserves hpath hkey hitem ha.current hassign }

theorem place_preserves {header : Header} (hkey : P header.key) {t : Table} (ht : t.All P) :
    Table.Preserves P (fun _ : Unit => True) (place header t) := by
  intro parent u parent' hparent h
  unfold place at h
  split at h
  · obtain ⟨-, rfl⟩ := Prod.mk.inj (Option.some.inj h)
    exact ⟨trivial, hparent.append hkey ht⟩
  · obtain ⟨-, rfl⟩ := Prod.mk.inj (Option.some.inj h)
    exact ⟨trivial, hparent.append hkey (Item.all_tables.mpr (List.forall_mem_singleton.mpr ht))⟩
  · rename_i span all _ hfind
    obtain ⟨-, rfl⟩ := Prod.mk.inj (Option.some.inj h)
    have hall := Item.all_tables.mp (hparent.find? hfind)
    exact ⟨trivial, hparent.set _ (Item.all_tables.mpr
      (List.forall_mem_append.mpr ⟨hall, List.forall_mem_singleton.mpr ht⟩))⟩
  · cases h

theorem All.settle {a : Assembly} (ha : a.All P) {t : Table} (h : a.settle = some t) : t.All P := by
  unfold Assembly.settle at h
  split at h
  · exact Option.some.inj h ▸ ha.current
  · rename_i header hheader
    obtain ⟨⟨u, _⟩, hchange, rfl⟩ := Option.map_eq_some_iff.mp h
    have hplace := place_preserves (ha.key _ hheader) ha.current
    exact (Table.change_preserves hplace (ha.path _ hheader) _ _ _ ha.root hchange).2

theorem takeOver_preserves (key : Key) :
    Table.Preserves P (fun rows => ∀ r ∈ rows, P r.key ∧ r.item.All P) (takeOver key) := by
  intro parent rows parent' hparent h
  unfold takeOver at h
  split at h
  · obtain ⟨rfl, rfl⟩ := Prod.mk.inj (Option.some.inj h)
    exact ⟨fun _ hr => absurd hr List.not_mem_nil, hparent⟩
  · rename_i old hfind
    split at h
    · obtain ⟨rfl, rfl⟩ := Prod.mk.inj (Option.some.inj h)
      exact ⟨Table.all_iff.mp (hparent.find? hfind), hparent.erase _⟩
    · cases h
  · cases h

theorem All.enter {a a' : Assembly} (ha : a.All P) {header : Header} (hpath : ∀ k ∈ header.path, P k)
    (hkey : P header.key) (h : a.enter header = some a') : a'.All P := by
  have hheader : ∀ {Q : Header → Prop}, Q header → ∀ other, some header = some other → Q other :=
    fun hQ other heq => Option.some.inj heq ▸ hQ
  obtain ⟨root, hsettle, h⟩ := Option.bind_eq_some_iff.mp h
  have hroot := ha.settle hsettle
  split at h
  · obtain rfl := Option.some.inj h
    exact ⟨hroot, .of_no_rows rfl, hheader hpath, hheader hkey⟩
  · obtain ⟨⟨rows, root'⟩, hchange, h⟩ := Option.bind_eq_some_iff.mp h
    obtain rfl := Option.some.inj h
    obtain ⟨hrows, hroot'⟩ := Table.change_preserves (takeOver_preserves header.key) hpath _ _ _ hroot hchange
    exact ⟨hroot', Table.all_iff.mpr hrows, hheader hpath, hheader hkey⟩

end Assembly

variable {cs : List Char}

/-- A key was read at a place of a text, in quotes or as it is. -/
def ReadsKey (cs : List Char) (k : Key) : Prop := ∃ c next : Cursor, c.IsIn cs ∧ readPart c = some (k, next)

/-- A key was read at a place of a text, or is the one under which a moment is handed over. -/
def Stands (cs : List Char) (k : Key) : Prop := k.name = momentKey ∨ ReadsKey cs k

/-- The parts of a key were read, and reading goes on at a place of the text. -/
structure ReadsParts (cs : List Char) (path : List Key) (last : Key) (next : Cursor) : Prop where
  path : ∀ k ∈ path, Stands cs k
  last : Stands cs last
  place : next.IsIn cs

theorem blanks_isIn {c : Cursor} (hc : c.IsIn cs) : (skipBlanks c).IsIn cs := hc.trans (skipBlanks_reaches c)

theorem nextPart_isIn {c : Cursor} (hc : c.IsIn cs) : (nextPart c).IsIn cs := hc.trans (nextPart_reaches c)

theorem readKeyWithin_reads {fuel : Nat} {c next : Cursor} {path : List Key} {last : Key} (hc : c.IsIn cs)
    (h : readKeyWithin fuel c = some (path, last, next)) : ReadsParts cs path last next := by
  induction fuel generalizing c path with
  | zero => cases h
  | succ fuel ih =>
    obtain ⟨⟨part, after⟩, hpart, h⟩ := Option.bind_eq_some_iff.mp h
    have hstands : Stands cs part := .inr ⟨c, after, hc, hpart⟩
    have hafter := blanks_isIn (hc.trans (readPart_reaches hpart))
    dsimp only at h
    split at h
    · rename_i rest hahead
      obtain ⟨⟨more, last', next'⟩, hmore, h⟩ := Option.bind_eq_some_iff.mp h
      cases h
      have hparts := ih (blanks_isIn (hafter.trans (.narrow hahead (by decide)))) hmore
      exact { hparts with path := List.forall_mem_cons.mpr ⟨hstands, hparts.path⟩ }
    · cases h
      exact ⟨fun _ hk => absurd hk List.not_mem_nil, hstands, hafter⟩

theorem readKey_reads {c next : Cursor} {path : List Key} {last : Key} (hc : c.IsIn cs)
    (h : readKey c = some (path, last, next)) : ReadsParts cs path last next := by
  obtain ⟨⟨path', last', next'⟩, hwithin, h⟩ := Option.bind_eq_some_iff.mp h
  dsimp only at h
  split at h
  · cases h
    exact readKeyWithin_reads hc hwithin
  · cases h

theorem runNode?_stands {span : Span} {run : List Char} {n : Node} (h : runNode? span run = some n) :
    (Item.leaf n).All (Stands cs) := by
  have hnone : ∀ {m : Node}, m.keys = [] → (Item.leaf m).All (Stands cs) :=
    fun hkeys k hk => absurd (hkeys ▸ hk : k ∈ []) List.not_mem_nil
  unfold runNode? at h
  split at h
  · exact Option.some.inj h ▸ hnone rfl
  · split at h
    · exact Option.some.inj h ▸ hnone rfl
    · split at h
      · rename_i text _
        obtain rfl := Option.some.inj h
        intro k hk
        obtain rfl : k = ⟨momentKey, span⟩ := List.mem_singleton.mp hk
        exact .inl rfl
      · obtain ⟨_, -, rfl⟩ := Option.map_eq_some_iff.mp h
        exact hnone rfl

/-- All readers of one step less find only keys that were read, and go on at places of the text. -/
structure AllRead (cs : List Char) (fuel : Nat) : Prop where
  value : ∀ depth c item next, c.IsIn cs → readValue fuel depth c = some (item, next) →
    item.All (Stands cs) ∧ next.IsIn cs
  items : ∀ depth c items next, c.IsIn cs → readItems fuel depth c = some (items, next) →
    (∀ i ∈ items, i.All (Stands cs)) ∧ next.IsIn cs
  pairs : ∀ depth t c t' next, t.All (Stands cs) → c.IsIn cs → readPairs fuel depth t c = some (t', next) →
    t'.All (Stands cs) ∧ next.IsIn cs

theorem readValue_reads {fuel depth : Nat} (ih : AllRead cs fuel) {c next : Cursor} {item : Item} (hc : c.IsIn cs)
    (h : readValue (fuel + 1) depth c = some (item, next)) : item.All (Stands cs) ∧ next.IsIn cs := by
  rw [readValue] at h
  split at h
  · cases h
  · rename_i first rest hahead
    dsimp only at h
    split at h
    · rename_i hquote
      obtain ⟨⟨text, after⟩, hread, h⟩ := Option.bind_eq_some_iff.mp h
      cases h
      exact ⟨fun k hk => absurd hk List.not_mem_nil,
        hc.trans (readQuoted_reaches (utf8Size_of_quote hquote) hahead hread)⟩
    · split at h
      · rename_i hbracket
        subst hbracket
        split at h
        · cases h
        · obtain ⟨⟨items, after⟩, hread, h⟩ := Option.bind_eq_some_iff.mp h
          cases h
          obtain ⟨hitems, hnext⟩ := ih.items _ _ _ _ (nextPart_isIn (hc.trans (.narrow hahead (by decide)))) hread
          exact ⟨Item.all_array.mpr hitems, hnext⟩
      · split at h
        · rename_i hbrace
          subst hbrace
          split at h
          · cases h
          · obtain ⟨⟨t, after⟩, hread, h⟩ := Option.bind_eq_some_iff.mp h
            cases h
            obtain ⟨ht, hnext⟩ := ih.pairs _ _ _ _ _ (.of_no_rows rfl)
              (nextPart_isIn (hc.trans (.narrow hahead (by decide)))) hread
            -- The table gets its span only now; its rows stay as they are.
            exact ⟨Table.all_iff.mpr fun r hr => Table.all_iff.mp ht r hr, hnext⟩
        · obtain ⟨n, hnode, h⟩ := Option.bind_eq_some_iff.mp h
          cases h
          exact ⟨runNode?_stands hnode, hc.trans (readRun_reaches rfl)⟩

theorem readItems_reads {fuel depth : Nat} (ih : AllRead cs fuel) {c next : Cursor} {items : List Item}
    (hc : c.IsIn cs) (h : readItems (fuel + 1) depth c = some (items, next)) :
    (∀ i ∈ items, i.All (Stands cs)) ∧ next.IsIn cs := by
  rw [readItems.eq_def] at h
  dsimp only at h
  split at h
  · rename_i rest hahead
    cases h
    exact ⟨fun _ hi => absurd hi List.not_mem_nil, hc.trans (.narrow hahead (by decide))⟩
  · obtain ⟨⟨item, after⟩, hread, h⟩ := Option.bind_eq_some_iff.mp h
    obtain ⟨hitem, hafter⟩ := ih.value _ _ _ _ hc hread
    have hafter := nextPart_isIn hafter
    dsimp only at h
    split at h
    · rename_i rest hahead
      obtain ⟨⟨more, next'⟩, hmore, h⟩ := Option.bind_eq_some_iff.mp h
      cases h
      obtain ⟨hothers, hnext⟩ := ih.items _ _ _ _ (nextPart_isIn (hafter.trans (.narrow hahead (by decide)))) hmore
      exact ⟨List.forall_mem_cons.mpr ⟨hitem, hothers⟩, hnext⟩
    · rename_i rest hahead
      cases h
      exact ⟨List.forall_mem_singleton.mpr hitem, hafter.trans (.narrow hahead (by decide))⟩
    · cases h

theorem readPairs_reads {fuel depth : Nat} (ih : AllRead cs fuel) {t t' : Table} {c next : Cursor}
    (ht : t.All (Stands cs)) (hc : c.IsIn cs) (h : readPairs (fuel + 1) depth t c = some (t', next)) :
    t'.All (Stands cs) ∧ next.IsIn cs := by
  rw [readPairs.eq_def] at h
  dsimp only at h
  split at h
  · rename_i rest hahead
    cases h
    exact ⟨ht, hc.trans (.narrow hahead (by decide))⟩
  · obtain ⟨⟨path, key, afterKey⟩, hkey, h⟩ := Option.bind_eq_some_iff.mp h
    have hparts := readKey_reads hc hkey
    have hequals := nextPart_isIn hparts.place
    dsimp only at h
    split at h
    · rename_i rest hahead
      obtain ⟨⟨item, afterValue⟩, hread, h⟩ := Option.bind_eq_some_iff.mp h
      obtain ⟨t₁, hassign, h⟩ := Option.bind_eq_some_iff.mp h
      obtain ⟨hitem, hafter⟩ := ih.value _ _ _ _ (nextPart_isIn (hequals.trans (.narrow hahead (by decide)))) hread
      have ht₁ := Table.assign_preserves hparts.path hparts.last hitem ht hassign
      have hafter := nextPart_isIn hafter
      dsimp only at h
      split at h
      · rename_i rest hahead
        exact ih.pairs _ _ _ _ _ ht₁ (nextPart_isIn (hafter.trans (.narrow hahead (by decide)))) h
      · rename_i rest hahead
        cases h
        exact ⟨ht₁, hafter.trans (.narrow hahead (by decide))⟩
      · cases h
    · cases h

/-- With one step more the readers find what they find with less. -/
theorem allRead (cs : List Char) (fuel : Nat) : AllRead cs fuel := by
  induction fuel with
  | zero =>
    refine ⟨fun _ _ _ _ _ h => ?_, fun _ _ _ _ _ h => ?_, fun _ _ _ _ _ _ _ h => ?_⟩
    · rw [readValue] at h; cases h
    · rw [readItems] at h; cases h
    · rw [readPairs] at h; cases h
  | succ fuel ih =>
    exact ⟨fun _ _ _ _ hc h => readValue_reads ih hc h, fun _ _ _ _ hc h => readItems_reads ih hc h,
      fun _ _ _ _ _ ht hc h => readPairs_reads ih ht hc h⟩

theorem readPair_reads {a a' : Assembly} {c next : Cursor} (ha : a.All (Stands cs)) (hc : c.IsIn cs)
    (h : readPair a c = some (a', next)) : a'.All (Stands cs) ∧ next.IsIn cs := by
  obtain ⟨⟨path, key, afterKey⟩, hkey, h⟩ := Option.bind_eq_some_iff.mp h
  have hparts := readKey_reads hc hkey
  dsimp only at h
  split at h
  · rename_i rest hahead
    obtain ⟨⟨item, after⟩, hread, h⟩ := Option.bind_eq_some_iff.mp h
    obtain ⟨a₁, hassign, h⟩ := Option.bind_eq_some_iff.mp h
    cases h
    obtain ⟨hitem, hnext⟩ := (allRead cs _).value _ _ _ _
      (blanks_isIn (hparts.place.trans (.narrow hahead (by decide)))) hread
    exact ⟨ha.assign hparts.path hparts.last hitem hassign, hnext⟩
  · cases h

theorem readHeader_reads {a a' : Assembly} {isDouble : Bool} {start : Nat} {c next : Cursor} (ha : a.All (Stands cs))
    (hc : c.IsIn cs) (h : readHeader a isDouble start c = some (a', next)) : a'.All (Stands cs) ∧ next.IsIn cs := by
  obtain ⟨⟨path, key, afterKey⟩, hkey, h⟩ := Option.bind_eq_some_iff.mp h
  have hparts := readKey_reads (blanks_isIn hc) hkey
  have henter : ∀ after : Cursor, (do return (← a.enter ⟨path, key, isDouble, ⟨start, after.offset⟩⟩, after)) =
      some (a', next) → afterKey.Reaches after → a'.All (Stands cs) ∧ next.IsIn cs := by
    intro after h hreaches
    obtain ⟨a₁, henter, h⟩ := Option.bind_eq_some_iff.mp h
    cases h
    exact ⟨ha.enter hparts.path hparts.last henter, hparts.place.trans hreaches⟩
  dsimp only at h
  split at h
  · rename_i rest hahead _
    exact henter _ h (.narrow hahead (by decide))
  · rename_i rest hahead _
    exact henter _ h (.run [']', ']'] hahead (by decide))
  · cases h

theorem readExpression_reads {a a' : Assembly} {c next : Cursor} (ha : a.All (Stands cs)) (hc : c.IsIn cs)
    (h : readExpression a c = some (a', next)) : a'.All (Stands cs) ∧ next.IsIn cs := by
  unfold readExpression at h
  split at h
  case h_5 =>
    rename_i rest hahead
    exact readHeader_reads ha (hc.trans (.run ['[', '['] hahead (by decide))) h
  case h_6 =>
    rename_i rest _ hahead
    exact readHeader_reads ha (hc.trans (.narrow hahead (by decide))) h
  case h_7 => exact readPair_reads ha hc h
  all_goals
    cases h
    exact ⟨ha, hc⟩

theorem finishLine_isIn {c next : Cursor} (hc : c.IsIn cs) (h : finishLine c = some next) : next.IsIn cs := by
  have hcomment := (blanks_isIn hc).trans (skipComment_reaches _)
  unfold finishLine at h
  dsimp only at h
  split at h
  · exact Option.some.inj h ▸ hcomment
  · exact hcomment.trans (lineEnd?_reaches h)

/-- Line after line, by induction on the lines: the document that is being read has only keys that were read. -/
theorem readLines_reads {fuel : Nat} {a : Assembly} {c : Cursor} {t : Table} (ha : a.All (Stands cs)) (hc : c.IsIn cs)
    (h : readLines fuel a c = some t) : t.All (Stands cs) := by
  induction fuel generalizing a c with
  | zero => cases h
  | succ fuel ih =>
    rw [readLines] at h
    split at h
    · exact ha.settle h
    · obtain ⟨⟨a₁, next⟩, hread, h⟩ := Option.bind_eq_some_iff.mp h
      obtain ⟨after, hfinish, h⟩ := Option.bind_eq_some_iff.mp h
      obtain ⟨ha₁, hnext⟩ := readExpression_reads ha (blanks_isIn hc) hread
      exact ih ha₁ (finishLine_isIn hnext hfinish) h

theorem beginning_isIn (cs : List Char) : (beginning cs).IsIn cs := by
  unfold beginning
  split
  · exact Reaches.char (c := Cursor.start ('\ufeff' :: _)) rfl
  · exact .refl _

/-- Each key of a tree was read from the text, at its span, but for the one of a moment. -/
theorem parse_keys {root : Node} (h : parse cs = some root) {k : Key} (hk : k ∈ root.keys) : Stands cs k := by
  obtain ⟨t, hlines, rfl⟩ := Option.map_eq_some_iff.mp h
  exact readLines_reads Assembly.start_all (beginning_isIn cs) hlines k hk

end Toml

end TypeScribe

import TypeScribe.Tree.Record

/-!
# What documents say

The tree of a document without the places in the text, and when a value that was read holds it: all of it was
read, and every number in it can be handed over. Two values that hold one tree differ in places only.

* `Node.Holds.height_eq`: how deep they are nested is the same.
* `Node.Holds.admitAll`: a value that holds a tree can be read whole.
* `HoldEntries.split`: entries that hold a list of entries fall apart where the list does.
-/

namespace TypeScribe

/-- What a value of a document says. A table is a list of entries, and a key may come more than once. -/
inductive Tree where
  | null
  | bool (value : Bool)
  | integer (value : Int)
  | double (value : Double)
  | text (value : String)
  | array (items : List Tree)
  | table (entries : List (String × Tree))

mutual

/-- A value that was read whole holds a tree. -/
inductive Node.Holds : Node → Tree → Prop
  | null (span : Span) : Node.Holds (.null span) .null
  | bool (span : Span) (value : Bool) : Node.Holds (.bool span value) (.bool value)
  | integer (span : Span) {value : Int} (fits : fitsWord value = true) :
    Node.Holds (.number span (.integer value)) (.integer value)
  | double (span : Span) (value : Double) : Node.Holds (.number span (.double value)) (.double value)
  | text (span : Span) (value : String) : Node.Holds (.text span value) (.text value)
  | array (span : Span) {items : List Node} {trees : List Tree} (all : HoldItems items trees) :
    Node.Holds (.array span items true) (.array trees)
  | table (span : Span) {entries : List Entry} {pairs : List (String × Tree)}
    (all : HoldEntries entries pairs) : Node.Holds (.table span entries true) (.table pairs)

/-- Items hold trees, in order. -/
inductive HoldItems : List Node → List Tree → Prop
  | nil : HoldItems [] []
  | cons {n : Node} {t : Tree} {items : List Node} {trees : List Tree} (first : n.Holds t)
    (rest : HoldItems items trees) : HoldItems (n :: items) (t :: trees)

/-- Entries hold keys with trees, in order. -/
inductive HoldEntries : List Entry → List (String × Tree) → Prop
  | nil : HoldEntries [] []
  | cons (name : String) (span : Span) {n : Node} {t : Tree} {entries : List Entry}
    {pairs : List (String × Tree)} (first : n.Holds t) (rest : HoldEntries entries pairs) :
    HoldEntries (⟨⟨name, span⟩, n⟩ :: entries) ((name, t) :: pairs)

end

/-! ## Height -/

mutual

theorem Node.Holds.height_eq {n n' : Node} {t : Tree} : n.Holds t → n'.Holds t → n.height = n'.height
  | .null _, .null _ | .bool _ _, .bool _ _ | .integer _ _, .integer _ _ | .double _ _, .double _ _
  | .text _ _, .text _ _ => by simp only [Node.height]
  | .array _ all, .array _ all' => by simp only [Node.height, all.height_eq all']
  | .table _ all, .table _ all' => by simp only [Node.height, all.height_eq all']

theorem HoldItems.height_eq {items items' : List Node} {trees : List Tree} :
    HoldItems items trees → HoldItems items' trees → Node.listHeight items = Node.listHeight items'
  | .nil, .nil => rfl
  | .cons first rest, .cons first' rest' => by
    rw [Node.listHeight, Node.listHeight, first.height_eq first', rest.height_eq rest']

theorem HoldEntries.height_eq {entries entries' : List Entry} {pairs : List (String × Tree)} :
    HoldEntries entries pairs → HoldEntries entries' pairs →
      Node.entriesHeight entries = Node.entriesHeight entries'
  | .nil, .nil => rfl
  | .cons _ _ first rest, .cons _ _ first' rest' => by
    rw [Node.entriesHeight, Node.entriesHeight, first.height_eq first', rest.height_eq rest']

end

/-! ## Reading whole -/

mutual

/-- A value that holds a tree can be read whole. -/
theorem Node.Holds.admitAll {n : Node} {t : Tree} : n.Holds t → n.admitAll = .ok ()
  | .null _ | .bool _ _ | .text _ _ => by simp only [Node.admitAll]
  | .double _ _ => by rw [Node.admitAll, if_pos (by rfl)]
  | .integer _ fits => by rw [Node.admitAll, if_pos (by exact fits)]
  | .array _ all => by rw [Node.admitAll, all.admitItems]; rfl
  | .table _ all => by rw [Node.admitAll, all.admitEntries]; rfl

theorem HoldItems.admitItems {items : List Node} {trees : List Tree} : HoldItems items trees → admitItems items = .ok ()
  | .nil => by rw [admitItems]
  | .cons first rest => by rw [admitItems, first.admitAll]; exact rest.admitItems

theorem HoldEntries.admitEntries {entries : List Entry} {pairs : List (String × Tree)} :
    HoldEntries entries pairs → admitEntries entries = .ok ()
  | .nil => by rw [admitEntries]
  | .cons _ _ first rest => by rw [admitEntries, first.admitAll]; exact rest.admitEntries

end

/-! ## Parts of a table -/

/-- Entries that hold a list of entries fall apart where the list does. -/
theorem HoldEntries.split {entries : List Entry} {before after : List (String × Tree)} {key : String} {t : Tree}
    (h : HoldEntries entries (before ++ (key, t) :: after)) :
    ∃ first span n last, entries = first ++ ⟨⟨key, span⟩, n⟩ :: last ∧ n.Holds t ∧
      HoldEntries first before ∧ HoldEntries last after := by
  induction before generalizing entries with
  | nil =>
    cases h with
    | cons _ span hn hlast => exact ⟨[], span, _, _, rfl, hn, .nil, hlast⟩
  | cons p before ih =>
    cases h with
    | cons name span hn hrest =>
      obtain ⟨first, span', n, last, rfl, hn', hfirst, hlast⟩ := ih hrest
      exact ⟨_ :: first, span', n, last, rfl, hn', .cons name span hn hfirst, hlast⟩

theorem HoldEntries.append {first last : List Entry} {before after : List (String × Tree)}
    (hf : HoldEntries first before) (hl : HoldEntries last after) :
    HoldEntries (first ++ last) (before ++ after) := by
  induction before generalizing first with
  | nil => cases hf; exact hl
  | cons p before ih =>
    cases hf with
    | cons name span hn hrest => exact .cons name span hn (ih hrest)

end TypeScribe

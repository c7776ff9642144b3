import TypeScribe.Tree.Node

/-!
# Putting tables together

A table grows by entries with dotted keys and by headers. Each table remembers how it came to be, because
that decides what may still be added: nothing to an inline table, no dotted keys to a table with a header, and
no header to a table that has one or was opened by dotted keys.
-/

namespace TypeScribe.Toml

mutual

/-- What a key stands for. -/
inductive Item where
  /-- A scalar, or a date. -/
  | leaf (node : Node)
  /-- An array that was written as a value. -/
  | array (span : Span) (items : List Item)
  /-- A table. -/
  | table (table : Table)
  /-- An array of the tables with one double header. -/
  | tables (span : Span) (tables : List Table)

/-- A table and how it came to be. -/
structure Table where
  span : Span
  /-- Whether it is only known from keys that lead through it. -/
  isImplicit : Bool
  /-- Whether it was opened by a dotted key. -/
  isDotted : Bool
  /-- Whether it was written as a value. -/
  isInline : Bool
  rows : List Row

/-- A key and what it stands for. -/
structure Row where
  key : Key
  item : Item

end

namespace Table

/-- A table that was written out and has no entries yet. -/
def fresh (span : Span) : Table := ⟨span, false, false, false, []⟩

/-- A table that a key leads through. -/
def throughKey (span : Span) (dotted : Bool) : Table := ⟨span, true, dotted, false, []⟩

/-- What a name stands for. -/
def find? (t : Table) (name : String) : Option Item :=
  (t.rows.find? (·.key.name = name)).map Row.item

/-- Adds an entry at the end. -/
def append (t : Table) (key : Key) (item : Item) : Table := { t with rows := t.rows ++ [⟨key, item⟩] }

/-- Changes what a name stands for, in its place. -/
def set (t : Table) (name : String) (item : Item) : Table :=
  { t with rows := t.rows.map fun r => if r.key.name = name then ⟨r.key, item⟩ else r }

/-- Takes an entry out. -/
def erase (t : Table) (name : String) : Table :=
  { t with rows := t.rows.filter (·.key.name ≠ name) }

/-- Changes the last table of a list. -/
def changeLast {α : Type} (f : Table → Option (α × Table)) : List Table → Option (α × List Table)
  | [] => none
  | [t] => (f t).map fun (a, t) => (a, [t])
  | t :: rest => (changeLast f rest).map fun (a, rest) => (a, t :: rest)

/-- Changes the table at the end of a path, and opens the tables on the way that are not there. Dotted keys
lead only through tables that were opened by keys; headers lead also through tables with headers and through
the last table of an array. -/
def change {α : Type} (dotted : Bool) (f : Table → Option (α × Table)) : List Key → Table → Option (α × Table)
  | [], t => f t
  | key :: path, t =>
    match t.find? key.name with
    | none => do
      let (a, inner) ← change dotted f path (throughKey key.span dotted)
      return (a, t.append key (.table inner))
    | some (.table inner) =>
      if inner.isInline || (dotted && !inner.isImplicit) then none
      else do
        let (a, inner) ← change dotted f path inner
        return (a, t.set key.name (.table inner))
    | some (.tables span all) => do
      let (a, all) ← changeLast (change dotted f path) all
      return (a, t.set key.name (.tables span all))
    | some _ => none

/-- Adds an entry under a dotted key, whose last part comes apart. -/
def assign (path : List Key) (key : Key) (item : Item) (t : Table) : Option Table :=
  let add (inner : Table) : Option (Unit × Table) :=
    if inner.isDotted = path.isEmpty || (inner.find? key.name).isSome then none
    else some ((), inner.append key item)
  (t.change (!path.isEmpty) add path).map Prod.snd

end Table

mutual

/-- The value of an item. -/
def Item.node : Item → Node
  | .leaf n => n
  | .array span items => .array span (itemNodes items) true
  | .table t => t.node
  | .tables span all => .array span (tableNodes all) true

/-- The value of a table. -/
def Table.node : Table → Node
  | ⟨span, _, _, _, rows⟩ => .table span (rowEntries rows) true

/-- The values of items. -/
def itemNodes : List Item → List Node
  | [] => []
  | i :: rest => i.node :: itemNodes rest

/-- The values of tables. -/
def tableNodes : List Table → List Node
  | [] => []
  | t :: rest => t.node :: tableNodes rest

/-- The entries of a table. -/
def rowEntries : List Row → List Entry
  | [] => []
  | ⟨key, item⟩ :: rest => ⟨key, item.node⟩ :: rowEntries rest

end

/-- A header: the way to a table, and whether the table is one of an array. -/
structure Header where
  path : List Key
  key : Key
  isDouble : Bool
  span : Span

/-- A document while it is read: the table of the whole, and the table of the last header, which is put in its
place when the next header comes. -/
structure Assembly where
  root : Table
  current : Table
  header : Option Header

namespace Assembly

/-- Nothing was read. The entries before the first header belong to the whole. -/
def start : Assembly := ⟨.fresh ⟨0, 0⟩, .fresh ⟨0, 0⟩, none⟩

/-- Adds an entry to the table of the last header. -/
def assign (a : Assembly) (path : List Key) (key : Key) (item : Item) : Option Assembly := do
  return { a with current := ← a.current.assign path key item }

/-- Puts a table under a header into its parent. -/
def place (header : Header) (t parent : Table) : Option (Unit × Table) :=
  match header.isDouble, parent.find? header.key.name with
  | false, none => some ((), parent.append header.key (.table t))
  | true, none => some ((), parent.append header.key (.tables header.span [t]))
  | true, some (.tables span all) => some ((), parent.set header.key.name (.tables span (all ++ [t])))
  | _, _ => none

/-- The table of the whole, with the table of the last header in its place. -/
def settle (a : Assembly) : Option Table :=
  match a.header with
  | none => some a.current
  | some header => (a.root.change false (place header a.current) header.path).map Prod.snd

/-- The rows that a header takes over from a table that is only known from headers below it. -/
def takeOver (key : Key) (parent : Table) : Option (List Row × Table) :=
  match parent.find? key.name with
  | none => some ([], parent)
  | some (.table old) =>
    if old.isImplicit && !old.isDotted then some (old.rows, parent.erase key.name) else none
  | some _ => none

/-- Goes on with the table of a header. -/
def enter (a : Assembly) (header : Header) : Option Assembly := do
  let root ← a.settle
  if header.isDouble then return ⟨root, .fresh header.span, some header⟩
  else
    let (rows, root) ← root.change false (takeOver header.key) header.path
    return ⟨root, { Table.fresh header.span with rows }, some header⟩

end Assembly

end TypeScribe.Toml

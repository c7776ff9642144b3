import TypeScribe.Tree.Scalar

/-!
# Decoding tables of fixed shape

A record says which fields a table has. Entries are taken in the order of the text: a key must be known and
not taken yet before its value is looked at, and required fields must be there at the end. A record may also
be written as an array of its fields in their order.

* `Record.known`: the names that are offered when a key is not known.
-/

namespace TypeScribe

/-- A field of a record: its names, whether it must be there, and what its value does to the result. -/
structure Column (σ : Type) where
  name : String
  aliases : List String
  required : Bool
  fill : Node → σ → Read σ

namespace Column

/-- A field that must be there. -/
def needed {σ α : Type} (name : String) (read : Node → Read α) (set : α → σ → σ) : Column σ :=
  ⟨name, [], true, fun n s => (read n).map (set · s)⟩

/-- A field that may be left out. -/
def optional {σ α : Type} (name : String) (read : Node → Read α) (set : α → σ → σ) : Column σ :=
  ⟨name, [], false, fun n s => (read n).map (set · s)⟩

/-- The same field under one more name. -/
def orNamed {σ : Type} (c : Column σ) (alias_ : String) : Column σ :=
  { c with aliases := c.aliases ++ [alias_] }

/-- All names of a field. -/
def names {σ : Type} (c : Column σ) : List String := c.name :: c.aliases

end Column

/-- A table of fixed shape. -/
structure Record (σ : Type) where
  name : String
  columns : List (Column σ)
  /-- The result as long as no field was read. -/
  blank : σ

namespace Record

variable {σ : Type}

/-- The names of all fields, in order. -/
def known (r : Record σ) : List String := r.columns.flatMap Column.names

/-- The field of a name. -/
def column? (r : Record σ) (name : String) : Option (Column σ) :=
  r.columns.find? fun c => c.names.contains name

/-- Takes entries in order. The names of the fields that are taken already come with the result. -/
def fillEntries (r : Record σ) : List String → σ → List Entry → Read (List String × σ)
  | taken, s, [] => .ok (taken, s)
  | taken, s, ⟨key, value⟩ :: rest =>
    match r.column? key.name with
    | none => .error (.misfit (.unknownField key.name r.known) (.key key.span))
    | some c =>
      if taken.contains c.name then .error (.misfit (.duplicateField c.name) (.key key.span))
      else do
        let s ← c.fill value s
        fillEntries r (c.name :: taken) s rest

/-- The first required field that is not taken. -/
def missing? (r : Record σ) (taken : List String) : Option (Column σ) :=
  r.columns.find? fun c => c.required && !taken.contains c.name

/-- A record from the entries of a table. -/
def readEntries (r : Record σ) (span : Span) (entries : List Entry) (closed : Bool) : Read σ := do
  let (taken, s) ← r.fillEntries [] r.blank entries
  readEnd closed
  match r.missing? taken with
  | some c => .error (.misfit (.missingField c.name) (.ending span))
  | none => return s

/-- Takes items for the fields from an index on; the items that are left over come with the result. -/
def fillItems (r : Record σ) (span : Span) (closed : Bool) :
    List (Column σ) → Nat → σ → List Node → Read (σ × List Node)
  | [], _, s, items => .ok (s, items)
  | c :: more, index, s, [] => do
    readEnd closed
    if c.required then
      .error (.misfit (.wrongLength index (.recordItems r.name r.columns.length)) (.ending span))
    else fillItems r span closed more (index + 1) s []
  | c :: more, index, s, n :: rest => do
    let s ← c.fill n s
    fillItems r span closed more (index + 1) s rest

/-- A record from the items of an array. Items that are left over are a misfit in a value that was read
whole, end the reading of nested objects, and are passed over in the other form. -/
def readArray (r : Record σ) (mode : Mode) (span : Span) (items : List Node) (closed : Bool) : Read σ := do
  let (s, left) ← r.fillItems span closed r.columns 0 r.blank items
  if mode.buffered then
    if left.isEmpty then return s
    else .error (.misfit (.wrongLength items.length (.items r.columns.length)) (.ending span))
  else
    match mode.format with
    | .toml => return s
    | .json =>
      if left.isEmpty && closed then return s
      else
        let last := (items[r.columns.length - 1]?).map Node.span
        .error (.overlong ((last.getD span).stop))

/-- A record from a table or an array. -/
def read (r : Record σ) (mode : Mode) : Node → Read σ
  | .table span entries closed => r.readEntries span entries closed
  | .array span items closed => r.readArray mode span items closed
  | n => .error (n.mismatch (.record r.name))

end Record

/-- The whole number that a value is handed over as when words without sign are told apart: in nested
objects any number from zero up in a value that was read whole, in the other form those that only fit an
unsigned word. -/
def Number.index? (mode : Mode) : Number → Option Nat
  | .integer value =>
    match mode.format with
    | .json => if mode.buffered && 0 ≤ value then some value.toNat else none
    | .toml => if Int.pow 2 63 ≤ value && value < Int.pow 2 64 then some value.toNat else none
  | _ => none

/-- One of some named variants, by its name. -/
def findVariant {α : Type} (variants : List (String × α)) (name : String) (place : Place) : Read α :=
  match variants.lookup name with
  | some a => .ok a
  | none => .error (.misfit (.unknownVariant name (variants.map Prod.fst)) place)

/-- One of some named variants, by its name or, where a number is handed over as an index, by its index. -/
def readVariant {α : Type} (variants : List (String × α)) (mode : Mode) : Node → Read α
  | .text s name => findVariant variants name (.scalar s)
  | .number s value =>
    match value.index? mode with
    | none => .error ((Node.number s value).mismatch .variant)
    | some i =>
      match variants[i]? with
      | some (_, a) => .ok a
      | none => .error (.misfit (.wrongValue (.integer i) (.variantIndex variants.length)) (.scalar s))
  | n => .error (n.mismatch .variant)

/-- The value that goes with a variant that carries nothing. -/
def readUnit (mode : Mode) : Node → Read Unit
  | .null _ => .ok ()
  | .table s [] closed =>
    if mode.buffered then .ok () else .error ((Node.table s [] closed).mismatch .unit)
  | n => .error (n.mismatch .unit)

/-- One of some named variants that carry nothing: by its name, or as a table with the name as only key. -/
def readChoice {α : Type} (variants : List (String × α)) (mode : Mode) : Node → Read α
  | .unread => .error .unread
  | .text s name => findVariant variants name (.scalar s)
  | .table s entries closed =>
    if mode.buffered then
      match entries with
      | [⟨key, value⟩] => do
        let a ← findVariant variants key.name (.key key.span)
        readUnit mode value
        return a
      | _ => .error (.misfit (.wrongValue .map .singleKey) (.ending s))
    else
      match entries with
      | [] => .error (if closed then .noVariant s.start else .unread)
      | ⟨key, value⟩ :: rest => do
        let a ← findVariant variants key.name (.key key.span)
        readUnit mode value
        if rest.isEmpty && closed then return a else .error (.variantNotClosed value.span.stop)
  | n => if mode.buffered then .error (n.mismatch .textOrMap) else .error (.noVariant n.span.start)

end TypeScribe

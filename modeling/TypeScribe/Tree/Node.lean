import TypeScribe.Number.Double

/-!
# Trees of values

What a document says, before it is known what it should say: scalars, arrays and tables, each with the stretch
of the text it was read from. A table is a list of entries in the order of the text, and a key may come more
than once. Where the text stops being readable the tree stops too: what stands there is `unread`, and the
arrays and tables around it are not closed.

* `Node.isWhole`: nothing in a tree is unread.
* `Node.same_iff`: equality of trees is decided, places included.
-/

namespace TypeScribe

/-- A stretch of a text, in bytes: from the start up to the stop. -/
structure Span where
  start : Nat
  stop : Nat
deriving DecidableEq, Repr

/-- The key of a table entry. -/
structure Key where
  name : String
  span : Span
deriving DecidableEq, Repr

/-- A number: whole, or with binary64 precision. -/
inductive Number where
  | integer (value : Int)
  | double (value : Double)
  /-- One of a size that no reader can hand over with binary64 precision. -/
  | overflow
  /-- One that begins as a whole number and goes on with other characters, which no reader can hand over. -/
  | garbled
deriving DecidableEq, Repr

mutual

/-- A value in a document. -/
inductive Node where
  /-- The place at which the text could not be read. -/
  | unread
  | null (span : Span)
  | bool (span : Span) (value : Bool)
  | number (span : Span) (value : Number)
  | text (span : Span) (value : String)
  /-- Items, and whether the end of the array was read. -/
  | array (span : Span) (items : List Node) (closed : Bool)
  /-- Entries, and whether the end of the table was read. -/
  | table (span : Span) (entries : List Entry) (closed : Bool)

/-- A key with its value. -/
structure Entry where
  key : Key
  value : Node

end

namespace Node

/-- The stretch of the text that a value was read from. -/
def span : Node → Span
  | .unread => ⟨0, 0⟩
  | .null s | .bool s _ | .number s _ | .text s _ | .array s _ _ | .table s _ _ => s

mutual

/-- Whether nothing in a value is unread. -/
def isWhole : Node → Bool
  | .unread => false
  | .array _ items closed => closed && areWhole items
  | .table _ entries closed => closed && areEntriesWhole entries
  | _ => true

/-- Whether nothing in a list of values is unread. -/
def areWhole : List Node → Bool
  | [] => true
  | n :: rest => n.isWhole && areWhole rest

/-- Whether nothing in a list of entries is unread. -/
def areEntriesWhole : List Entry → Bool
  | [] => true
  | ⟨_, n⟩ :: rest => n.isWhole && areEntriesWhole rest

end

mutual

/-- Whether two values are the same, with the same places. -/
def same : Node → Node → Bool
  | .unread, .unread => true
  | .null s, .null t => s = t
  | .bool s a, .bool t b => s = t && a = b
  | .number s a, .number t b => s = t && a = b
  | .text s a, .text t b => s = t && a = b
  | .array s items closed, .array t others closed' => s = t && areSame items others && closed = closed'
  | .table s entries closed, .table t others closed' => s = t && areEntriesSame entries others && closed = closed'
  | _, _ => false

/-- Whether two lists of values are the same. -/
def areSame : List Node → List Node → Bool
  | [], [] => true
  | n :: rest, m :: others => n.same m && areSame rest others
  | _, _ => false

/-- Whether two lists of entries are the same. -/
def areEntriesSame : List Entry → List Entry → Bool
  | [], [] => true
  | ⟨key, n⟩ :: rest, ⟨key', m⟩ :: others => key = key' && n.same m && areEntriesSame rest others
  | _, _ => false

end

mutual

/-- Two values are the same exactly when they are equal. -/
theorem same_iff (n m : Node) : n.same m = true ↔ n = m := by
  cases n <;> cases m <;> simp [same, areSame_iff, areEntriesSame_iff, and_assoc]

theorem areSame_iff : (items others : List Node) → (areSame items others = true ↔ items = others)
  | [], [] | [], _ :: _ | _ :: _, [] => by simp [areSame]
  | n :: rest, m :: others => by simp [areSame, same_iff n m, areSame_iff rest others]

theorem areEntriesSame_iff : (entries others : List Entry) → (areEntriesSame entries others = true ↔ entries = others)
  | [], [] | [], _ :: _ | _ :: _, [] => by simp [areEntriesSame]
  | ⟨_, n⟩ :: rest, ⟨_, m⟩ :: others => by simp [areEntriesSame, same_iff n m, areEntriesSame_iff rest others]

end

instance : DecidableEq Node := fun n m => decidable_of_iff _ (same_iff n m)

mutual

/-- How deep values are nested in a value; a scalar has height one. -/
def height : Node → Nat
  | .array _ items _ => listHeight items + 1
  | .table _ entries _ => entriesHeight entries + 1
  | _ => 1

/-- The greatest height in a list of values. -/
def listHeight : List Node → Nat
  | [] => 0
  | n :: rest => max n.height (listHeight rest)

/-- The greatest height in a list of entries. -/
def entriesHeight : List Entry → Nat
  | [] => 0
  | ⟨_, n⟩ :: rest => max n.height (entriesHeight rest)

end

theorem height_pos (n : Node) : 0 < n.height := by
  cases n <;> simp [height]

theorem height_le_listHeight {n : Node} {items : List Node} (h : n ∈ items) :
    n.height ≤ listHeight items := by
  induction items with
  | nil => simp at h
  | cons m rest ih =>
    rcases List.mem_cons.1 h with rfl | h
    · exact Nat.le_max_left ..
    · exact Nat.le_trans (ih h) (Nat.le_max_right ..)

theorem height_le_entriesHeight {e : Entry} {entries : List Entry} (h : e ∈ entries) :
    e.value.height ≤ entriesHeight entries := by
  induction entries with
  | nil => simp at h
  | cons f rest ih =>
    obtain ⟨key, value⟩ := f
    rcases List.mem_cons.1 h with rfl | h
    · exact Nat.le_max_left ..
    · exact Nat.le_trans (ih h) (Nat.le_max_right ..)

end Node

end TypeScribe

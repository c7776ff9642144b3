import TypeScribe.Tree.Fault

/-!
# Decoding scalars, lists and free tables

How the plain parts of a document are read off a tree. A value of another kind than the wanted one is a
misfit at that value. In a table whose keys are free names a later entry of the same key takes the place of
the earlier one.

* `keys_putEntry`: putting an entry adds its key at the end, unless it is there already.
-/

namespace TypeScribe

/-- In which form a document is written, and whether the value at hand was read whole before it is decoded.
The two forms hand over numbers, arrays and variants differently. -/
structure Mode where
  format : Format
  buffered : Bool
deriving DecidableEq, Repr

/-- The same form, with values that were read whole. -/
def Mode.inner (mode : Mode) : Mode := { mode with buffered := true }

/-- Whether a whole number fits a signed or an unsigned word of 64 bits. -/
def fitsWord (value : Int) : Bool := -Int.pow 2 63 ≤ value && value < Int.pow 2 64

/-- What is wrong with a number where something else was wanted. One of more than 64 bits is named by the
double word that holds it, if there is one. -/
def Number.misfit (wanted : Wanted) : Number → Misfit
  | .overflow => .doubleOverflow
  | .garbled => .integerOverflow
  | .double value => .wrongType (.double value) wanted
  | .integer value =>
    if fitsWord value then .wrongType (.integer value) wanted
    else if -Int.pow 2 127 ≤ value && value < Int.pow 2 127 then .wrongType (.wide value true) wanted
    else if 0 ≤ value && value < Int.pow 2 128 then .wrongType (.wide value false) wanted
    else .integerOverflow

/-- Whether a number can be handed over at all. -/
def Number.isAdmitted : Number → Bool
  | .overflow | .garbled => false
  | .double _ => true
  | .integer value => fitsWord value

/-- A number as it is written in code. -/
def Number.text : Number → String
  | .integer value => toString value
  | .double value => value.text .code
  | .overflow | .garbled => ""

/-- Whether an array or table is entered before it is found out that it is not wanted. -/
def Wanted.enters : Wanted → Bool
  | .verbatim | .value | .statement | .member => true
  | _ => false

/-- The fault of a value that is not the wanted one. -/
def Node.mismatch (wanted : Wanted) : Node → Fault
  | .unread => .unread
  | .null s => .misfit (.wrongType .null wanted) (.scalar s)
  | .bool s value => .misfit (.wrongType (.bool value) wanted) (.scalar s)
  | .number s value => .misfit (value.misfit wanted) (.scalar s)
  | .text s value => .misfit (.wrongType (.text value) wanted) (.scalar s)
  | .array s _ _ => .misfit (.wrongType .sequence wanted) (if wanted.enters then .entered s else .before s)
  | .table s _ _ => .misfit (.wrongType .map wanted) (if wanted.enters then .entered s else .before s)

/-- A text. -/
def readText : Node → Read String
  | .text _ value => .ok value
  | n => .error (n.mismatch .text)

/-- The text of a path. -/
def readPath : Node → Read String
  | .text _ value => .ok value
  | n => .error (n.mismatch .path)

/-- A truth value. -/
def readBool : Node → Read Bool
  | .bool _ value => .ok value
  | n => .error (n.mismatch .bool)

/-- A whole number below 256. -/
def readByte : Node → Read UInt8
  | .number s (.integer value) =>
    if 0 ≤ value && value < 256 then .ok (UInt8.ofNat value.toNat)
    else if fitsWord value then .error (.misfit (.wrongValue (.integer value) .byte) (.scalar s))
    else .error ((Node.number s (.integer value)).mismatch .byte)
  | n => .error (n.mismatch .byte)

/-- A text, number or truth value as it is written in code; the rest is for others to tell. -/
def Node.verbatim? : Node → Option String
  | .text _ value => some value
  | .number _ value => if value.isAdmitted then some value.text else none
  | .bool _ value => some (toString value)
  | _ => none

/-- A text, number or truth value as it is written in code. -/
def readVerbatim (n : Node) : Read String :=
  match n.verbatim? with
  | some text => .ok text
  | none => .error (n.mismatch .verbatim)

/-- Something that may be null. -/
def readOptional {α : Type} (read : Node → Read α) : Node → Read (Option α)
  | .null _ => .ok none
  | n => (read n).map some

/-- The items of an array, in order. -/
def readItems {α : Type} (read : Node → Read α) : List Node → Read (List α)
  | [] => .ok []
  | n :: rest => do
    let a ← read n
    let more ← readItems read rest
    return a :: more

/-- Nothing, once an array or table is known to end. -/
def readEnd (closed : Bool) : Read Unit :=
  if closed then .ok () else .error .unread

/-- An array of things of one kind. -/
def readList {α : Type} (read : Node → Read α) : Node → Read (List α)
  | .array _ items closed => do
    let all ← readItems read items
    readEnd closed
    return all
  | n => .error (n.mismatch .sequence)

/-- Puts an entry in the place of the one with the same key, or at the end if there is none. -/
def putEntry {α : Type} (key : α → String) (a : α) : List α → List α
  | [] => [a]
  | b :: rest => if key b = key a then a :: rest else b :: putEntry key a rest

theorem keys_putEntry {α : Type} (key : α → String) (a : α) (l : List α) :
    (putEntry key a l).map key = if key a ∈ l.map key then l.map key else l.map key ++ [key a] := by
  induction l with
  | nil => simp [putEntry]
  | cons b rest ih =>
    by_cases h : key b = key a
    · simp [putEntry, h]
    · have h' : ¬ key a = key b := fun e => h e.symm
      by_cases hr : key a ∈ rest.map key <;> simp_all [putEntry]

/-- The entries of a table with free names, put one after the other. -/
def readFreeEntries {α β : Type} (key : α → String) (make : String → β → α) (read : Node → Read β) :
    List α → List Entry → Read (List α)
  | done, [] => .ok done
  | done, ⟨k, value⟩ :: rest => do
    let b ← read value
    readFreeEntries key make read (putEntry key (make k.name b) done) rest

/-- A table with free names. -/
def readFree {α β : Type} (key : α → String) (make : String → β → α) (read : Node → Read β) :
    Node → Read (List α)
  | .table _ entries closed => do
    let all ← readFreeEntries key make read [] entries
    readEnd closed
    return all
  | n => .error (n.mismatch .map)

mutual

/-- Whether a value can be read whole: everything in it was read, and every number can be handed over. -/
def Node.admitAll : Node → Read Unit
  | .unread => .error .unread
  | .number s value =>
    if value.isAdmitted then .ok () else .error ((Node.number s value).mismatch .anyValue)
  | .array _ items closed => do
    admitItems items
    readEnd closed
  | .table _ entries closed => do
    admitEntries entries
    readEnd closed
  | _ => .ok ()

/-- Whether every item can be read whole. -/
def admitItems : List Node → Read Unit
  | [] => .ok ()
  | n :: rest => do
    n.admitAll
    admitItems rest

/-- Whether every entry can be read whole. -/
def admitEntries : List Entry → Read Unit
  | [] => .ok ()
  | ⟨_, n⟩ :: rest => do
    n.admitAll
    admitEntries rest

end

end TypeScribe

import TypeScribe.Json.Reader
import TypeScribe.Tree.Scalar

/-!
# Decoding nested objects

A text is decoded in one pass: of a misfit and a problem of the grammar the one that comes first in the text
is told. A misfit that was noticed on the way out of an array or object is placed after what its end takes
with it: the blanks, a closing bracket, and in an array a comma with the blanks that follow.
-/

namespace TypeScribe.Json

/-- The place on the way out of an object. -/
def leaveObject (c : Cursor) : Cursor :=
  let c := skipBlanks c
  match c.ahead with
  | '\x7d' :: rest => ⟨c.offset + 1, rest⟩
  | _ => c

/-- The place on the way out of an array. -/
def leaveArray (c : Cursor) : Cursor :=
  let c := skipBlanks c
  match c.ahead with
  | ']' :: rest => ⟨c.offset + 1, rest⟩
  | ',' :: rest => skipBlanks ⟨c.offset + 1, rest⟩
  | _ => c

/-- The number of bytes read when a misfit was noticed. -/
def placeOffset (cs : List Char) : Place → Nat
  | .scalar s => s.stop
  | .before s => s.start
  | .entered s =>
    let c := Cursor.seek s.start 0 cs
    match c.ahead with
    | '[' :: rest => (leaveArray ⟨c.offset + 1, rest⟩).offset
    | _ :: rest => (leaveObject ⟨c.offset + 1, rest⟩).offset
    | [] => c.offset
  | .key s => (leaveObject (Cursor.seek s.stop 0 cs)).offset
  | .ending s => s.stop
  | .element s => (leaveArray (Cursor.seek s.stop 0 cs)).offset

/-- The problem of an array that does not end after its last wanted item. -/
def overlongFault (c : Cursor) : ReadFault :=
  let c := skipBlanks c
  match c.ahead with
  | [] => ⟨.endInList, c.offset⟩
  | ',' :: rest =>
    let next := skipBlanks ⟨c.offset + 1, rest⟩
    match next.ahead with
    | ']' :: _ => ⟨.trailingComma, next.peeked⟩
    | _ => ⟨.trailingCharacters, next.peeked⟩
  | _ => ⟨.trailingCharacters, c.peeked⟩

/-- The problem of a table that does not end after the entry that names a variant. -/
def variantFault (c : Cursor) : ReadFault :=
  let c := skipBlanks c
  if c.ahead.isEmpty then ⟨.endInObject, c.offset⟩ else ⟨.valueWanted, c.offset⟩

/-- What is told about a fault, given the problem at which reading stopped. -/
def failureOf (cs : List Char) (stopped : ReadFault) : Fault → Failure
  | .unread => stopped.failure
  | .overlong stop => (overlongFault (Cursor.seek stop 0 cs)).failure
  | .noVariant start => ReadFault.failure ⟨.valueWanted, start + 1⟩
  | .variantNotClosed stop => (variantFault (Cursor.seek stop 0 cs)).failure
  | .misfit cause place => ⟨.data, cause.message .json, placeOffset cs place⟩

/-- Decodes a text that holds one value and nothing else. -/
def decode {α : Type} (read : Node → Read α) (text : String) : Except Failure α :=
  let cs := text.toList
  let (root, ending) := parse cs
  match ending with
  | .error stopped =>
    match read root with
    | .error f => .error (failureOf cs stopped f)
    | .ok _ => .error stopped.failure
  | .ok next =>
    match read root with
    | .error f => .error (failureOf cs ⟨.endInValue, next.offset⟩ f)
    | .ok a =>
      let c := skipBlanks next
      if c.ahead.isEmpty then .ok a else .error (ReadFault.failure ⟨.trailingCharacters, c.peeked⟩)

end TypeScribe.Json

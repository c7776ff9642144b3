import TypeScribe.Toml.Value

/-!
# Reading tables with headers

A text is read line by line: an entry, a header, or nothing, then perhaps a comment. A byte order mark at the
beginning is passed over. The text is read as a whole before anything is made of it.
-/

namespace TypeScribe.Toml

/-- Moves past what may stand behind an expression to the next line. -/
def finishLine (c : Cursor) : Option Cursor :=
  let c := skipComment (skipBlanks c)
  if c.ahead.isEmpty then some c else lineEnd? c

/-- Reads the value of an entry and adds it to the table of the last header. -/
def readPair (a : Assembly) (c : Cursor) : Option (Assembly × Cursor) := do
  let (path, key, next) ← readKey c
  match next.ahead with
  | '=' :: rest =>
    let (item, next) ← readValue (3 * rest.length + 3) depthLimit (skipBlanks ⟨next.offset + 1, rest⟩)
    return (← a.assign path key item, next)
  | _ => none

/-- Reads a header after its opening brackets and goes on with its table. -/
def readHeader (a : Assembly) (isDouble : Bool) (start : Nat) (c : Cursor) : Option (Assembly × Cursor) := do
  let (path, key, next) ← readKey (skipBlanks c)
  let after ←
    match isDouble, next.ahead with
    | false, ']' :: rest => some (Cursor.mk (next.offset + 1) rest)
    | true, ']' :: ']' :: rest => some (Cursor.mk (next.offset + 2) rest)
    | _, _ => none
  return (← a.enter ⟨path, key, isDouble, ⟨start, after.offset⟩⟩, after)

/-- Reads what stands at the beginning of a line. -/
def readExpression (a : Assembly) (c : Cursor) : Option (Assembly × Cursor) :=
  match c.ahead with
  | [] => some (a, c)
  | '#' :: _ | '\n' :: _ | '\r' :: _ => some (a, c)
  | '[' :: '[' :: rest => readHeader a true c.offset ⟨c.offset + 2, rest⟩
  | '[' :: rest => readHeader a false c.offset ⟨c.offset + 1, rest⟩
  | _ => readPair a c

/-- Reads line after line. Fuel is the number of lines. -/
def readLines : Nat → Assembly → Cursor → Option Table
  | 0, _, _ => none
  | fuel + 1, a, c =>
    if c.ahead.isEmpty then a.settle
    else do
      let (a, next) ← readExpression a (skipBlanks c)
      readLines fuel a (← finishLine next)

/-- The place at which reading begins. -/
def beginning (cs : List Char) : Cursor :=
  match cs with
  | '\ufeff' :: rest => ⟨3, rest⟩
  | _ => ⟨0, cs⟩

/-- Reads a text. -/
def parse (cs : List Char) : Option Node :=
  (readLines (cs.length + 1) .start (beginning cs)).map Table.node

end TypeScribe.Toml

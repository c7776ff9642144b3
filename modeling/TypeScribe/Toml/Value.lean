import TypeScribe.Toml.Key
import TypeScribe.Toml.Moment
import TypeScribe.Toml.Number
import TypeScribe.Toml.Table

/-!
# Values in tables

A value is a text, an array, an inline table, or a run of characters that is a truth value, a moment or a
number. In arrays and inline tables there may be line ends and comments between the parts and a comma after
the last one, and they may be nested to a depth of 80.
-/

namespace TypeScribe.Toml

/-- Moves past a comment, up to the end of its line. -/
def skipComment (c : Cursor) : Cursor :=
  match c.ahead with
  | '#' :: rest => (Cursor.mk (c.offset + 1) rest).skip isPlain
  | _ => c

/-- Moves past blanks, line ends and comments. -/
def skipFiller : Nat → Cursor → Cursor
  | 0, c => c
  | fuel + 1, c =>
    let c := skipComment (skipBlanks c)
    match lineEnd? c with
    | some next => skipFiller fuel next
    | none => c

/-- Moves to the next part of an array or inline table. -/
def nextPart (c : Cursor) : Cursor := skipFiller (c.ahead.length + 1) c

/-- Whether a character ends a run. -/
def endsRun (c : Char) : Bool := " \t\r\n,=#[]\x7b\x7d".toList.contains c

/-- The characters of a run. A time may follow a date after one space. -/
def readRun (c : Cursor) : List Char × Cursor :=
  let run := c.ahead.takeWhile fun a => !endsRun a
  let next := c.skip fun a => !endsRun a
  match isDate run, next.ahead with
  | true, ' ' :: d :: rest =>
    if d.isDigit then
      let time := (d :: rest).takeWhile fun a => !endsRun a
      (run ++ ' ' :: time, (Cursor.mk (next.offset + 1) (d :: rest)).skip fun a => !endsRun a)
    else (run, next)
  | _, _ => (run, next)

/-- The key under which a moment is handed over. -/
def momentKey : String := "$__toml_private_datetime"

/-- A moment, which is handed over as a table with one entry. -/
def momentNode (span : Span) (text : String) : Node :=
  .table span [⟨⟨momentKey, span⟩, .text span text⟩] true

/-- The value of a run. -/
def runNode? (span : Span) (run : List Char) : Option Node :=
  if run = "true".toList then some (.bool span true)
  else if run = "false".toList then some (.bool span false)
  else
    match moment? run with
    | some text => some (momentNode span text)
    | none => (number? run).map (.number span)

/-- The depth to which arrays and inline tables may be nested. -/
def depthLimit : Nat := 80

mutual

/-- Reads a value. Fuel bounds the steps, and depth is what is left of the limit. -/
def readValue : Nat → Nat → Cursor → Option (Item × Cursor)
  | 0, _, _ => none
  | fuel + 1, depth, c =>
    match c.ahead with
    | [] => none
    | first :: rest =>
      let inner : Cursor := nextPart ⟨c.offset + 1, rest⟩
      if first = '"' || first = literalQuote then do
        let (text, next) ← readQuoted first (first = '"') c
        return (.leaf (.text ⟨c.offset, next.offset⟩ text), next)
      else if first = '[' then
        if depth = 0 then none
        else do
          let (items, next) ← readItems fuel (depth - 1) inner
          return (.array ⟨c.offset, next.offset⟩ items, next)
      else if first = '\x7b' then
        if depth = 0 then none
        else do
          let (t, next) ← readPairs fuel (depth - 1) (.fresh ⟨c.offset, c.offset⟩) inner
          return (.table { t with span := ⟨c.offset, next.offset⟩, isInline := true }, next)
      else do
        let (run, next) := readRun c
        let node ← runNode? ⟨c.offset, next.offset⟩ run
        return (.leaf node, next)

/-- Reads items up to the closing bracket. -/
def readItems : Nat → Nat → Cursor → Option (List Item × Cursor)
  | 0, _, _ => none
  | fuel + 1, depth, c =>
    match c.ahead with
    | ']' :: rest => some ([], ⟨c.offset + 1, rest⟩)
    | _ => do
      let (item, next) ← readValue fuel depth c
      let next := nextPart next
      match next.ahead with
      | ',' :: rest =>
        let (more, next) ← readItems fuel depth (nextPart ⟨next.offset + 1, rest⟩)
        return (item :: more, next)
      | ']' :: rest => return ([item], ⟨next.offset + 1, rest⟩)
      | _ => none

/-- Reads entries up to the closing brace and adds them to a table. -/
def readPairs : Nat → Nat → Table → Cursor → Option (Table × Cursor)
  | 0, _, _, _ => none
  | fuel + 1, depth, t, c =>
    match c.ahead with
    | '\x7d' :: rest => some (t, ⟨c.offset + 1, rest⟩)
    | _ => do
      let (path, key, next) ← readKey c
      let next := nextPart next
      match next.ahead with
      | '=' :: rest =>
        let (item, next) ← readValue fuel depth (nextPart ⟨next.offset + 1, rest⟩)
        let t ← t.assign path key item
        let next := nextPart next
        match next.ahead with
        | ',' :: rest => readPairs fuel depth t (nextPart ⟨next.offset + 1, rest⟩)
        | '\x7d' :: rest => return (t, ⟨next.offset + 1, rest⟩)
        | _ => none
      | _ => none

end

end TypeScribe.Toml

import TypeScribe.Json.Scalar

/-!
# Reading nested objects

A text of nested objects becomes a tree. Reading goes on as far as the text allows: the tree holds all that
was read before a problem, and the problem comes with it. Arrays and objects may be nested to a depth of 127.
-/

namespace TypeScribe.Json

/-- What separates values. -/
def isBlankChar (c : Char) : Bool := c = ' ' || c = '\n' || c = '\t' || c = '\r'

/-- Moves past blanks. -/
def skipBlanks (c : Cursor) : Cursor := c.skip isBlankChar

/-- The rest of a word. A problem is noticed after the first byte that differs. -/
def scanWord : List Char → Cursor → Except ReadFault Cursor
  | [], c => .ok c
  | w :: word, c =>
    match c.ahead with
    | [] => fail .endInValue c.offset
    | a :: rest => if a = w then scanWord word ⟨c.offset + 1, rest⟩ else fail .identWanted (c.offset + 1)

/-- One more than the depth to which arrays and objects may be nested. -/
def depthLimit : Nat := 128

/-- What was read, and where reading goes on or why it does not. -/
abbrev Partial (α : Type) := α × Except ReadFault Cursor

/-- Nothing was read because of a problem. -/
def unreadable (problem : Problem) (offset : Nat) : Partial Node := (.unread, fail problem offset)

/-- A value that begins at a byte, if it could be read. -/
def scalar {α : Type} (start : Nat) (make : Span → α → Node) :
    Except ReadFault (α × Cursor) → Partial Node
  | .ok (a, next) => (make ⟨start, next.offset⟩ a, .ok next)
  | .error f => (.unread, .error f)

/-- A word that stands for a value. -/
def wordValue (word : String) (start : Cursor) (make : Span → Node) : Partial Node :=
  scalar start.offset (fun s () => make s) ((scanWord word.toList start).map ((), ·))

/-- An array or object that begins at a byte: closed if reading goes on after it. -/
def container {α : Type} (start : Nat) (make : Span → List α → Bool → Node) (inner : Partial (List α)) :
    Partial Node :=
  match inner.2 with
  | .ok next => (make ⟨start, next.offset⟩ inner.1 true, .ok next)
  | .error f => (make ⟨start, start⟩ inner.1 false, .error f)

mutual

/-- Reads a value. Fuel bounds the steps, and depth is what is left of the limit. -/
def readNode : Nat → Nat → Cursor → Partial Node
  | 0, _, c => unreadable .tooDeep c.offset
  | fuel + 1, depth, start =>
    let c := skipBlanks start
    match c.ahead with
    | [] => unreadable .endInValue c.offset
    | 'n' :: _ => wordValue "null" c .null
    | 't' :: _ => wordValue "true" c (.bool · true)
    | 'f' :: _ => wordValue "false" c (.bool · false)
    | '"' :: rest => scalar c.offset .text (scanText ⟨c.offset + 1, rest⟩)
    | '-' :: rest => scalar c.offset .number (scanNumber true ⟨c.offset + 1, rest⟩)
    | '[' :: rest =>
      if depth ≤ 1 then unreadable .tooDeep c.peeked
      else container c.offset .array (readItems fuel (depth - 1) true ⟨c.offset + 1, rest⟩)
    | '\x7b' :: rest =>
      if depth ≤ 1 then unreadable .tooDeep c.peeked
      else container c.offset .table (readEntries fuel (depth - 1) true ⟨c.offset + 1, rest⟩)
    | a :: _ =>
      if a.isDigit then scalar c.offset .number (scanNumber false c) else unreadable .valueWanted c.peeked

/-- Reads items up to the closing bracket. -/
def readItems : Nat → Nat → Bool → Cursor → Partial (List Node)
  | 0, _, _, c => ([], fail .tooDeep c.offset)
  | fuel + 1, depth, isFirst, start =>
    let c := skipBlanks start
    match c.ahead, isFirst with
    | [], _ => ([], fail .endInList c.offset)
    | ']' :: rest, _ => ([], .ok ⟨c.offset + 1, rest⟩)
    | _, true => readItem fuel depth c
    | ',' :: rest, false =>
      let next := skipBlanks ⟨c.offset + 1, rest⟩
      match next.ahead with
      | [] => ([], fail .endInValue next.offset)
      | ']' :: _ => ([], fail .trailingComma next.peeked)
      | _ => readItem fuel depth next
    | _, false => ([], fail .commaOrBracketWanted c.peeked)

/-- Reads an item and those after it. -/
def readItem : Nat → Nat → Cursor → Partial (List Node)
  | 0, _, c => ([], fail .tooDeep c.offset)
  | fuel + 1, depth, c =>
    match readNode fuel depth c with
    | (n, .error f) => ([n], .error f)
    | (n, .ok next) =>
      let (more, ending) := readItems fuel depth false next
      (n :: more, ending)

/-- Reads entries up to the closing brace. -/
def readEntries : Nat → Nat → Bool → Cursor → Partial (List Entry)
  | 0, _, _, c => ([], fail .tooDeep c.offset)
  | fuel + 1, depth, isFirst, start =>
    let c := skipBlanks start
    match c.ahead, isFirst with
    | [], _ => ([], fail .endInObject c.offset)
    | '\x7d' :: rest, _ => ([], .ok ⟨c.offset + 1, rest⟩)
    | '"' :: _, true => readEntry fuel depth c
    | _, true => ([], fail .keyWanted c.peeked)
    | ',' :: rest, false =>
      let next := skipBlanks ⟨c.offset + 1, rest⟩
      match next.ahead with
      | [] => ([], fail .endInValue next.offset)
      | '"' :: _ => readEntry fuel depth next
      | '\x7d' :: _ => ([], fail .trailingComma next.peeked)
      | _ => ([], fail .keyWanted next.peeked)
    | _, false => ([], fail .commaOrBraceWanted c.peeked)

/-- Reads an entry, which begins with a quote, and those after it. -/
def readEntry : Nat → Nat → Cursor → Partial (List Entry)
  | 0, _, c => ([], fail .tooDeep c.offset)
  | fuel + 1, depth, c =>
    match scanText ⟨c.offset + 1, c.ahead.drop 1⟩ with
    | .error f => ([], .error f)
    | .ok (name, afterKey) =>
      let key : Key := ⟨name, ⟨c.offset, afterKey.offset⟩⟩
      let colon := skipBlanks afterKey
      match colon.ahead with
      | ':' :: rest =>
        match readNode fuel depth ⟨colon.offset + 1, rest⟩ with
        | (n, .error f) => ([⟨key, n⟩], .error f)
        | (n, .ok next) =>
          let (more, ending) := readEntries fuel depth false next
          (⟨key, n⟩ :: more, ending)
      | [] => ([⟨key, .unread⟩], fail .endInObject colon.offset)
      | _ => ([⟨key, .unread⟩], fail .colonWanted colon.peeked)

end

/-- Reads the value at the beginning of a text. -/
def parse (cs : List Char) : Partial Node :=
  readNode (3 * cs.length + 3) depthLimit (Cursor.start cs)

end TypeScribe.Json

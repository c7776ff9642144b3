import TypeScribe.Text.Cursor
import TypeScribe.Text.Digit

/-!
# Texts in tables

The four forms of a text: between single or triple quotes, double ones with escapes and single ones without.
A text between triple quotes may span lines, loses a line end right after the opening quotes, and keeps up to
two quotes right before the closing ones. A control character other than the tab stands in none of them.
-/

namespace TypeScribe.Toml

/-- Whether a character may stand in a text or comment as it is; line ends are told apart by the form. -/
def isPlain (c : Char) : Bool := c = '\t' || (0x20 ≤ c.toNat && c.toNat ≠ 0x7F)

/-- The value of hexadecimal digits. -/
def hexNumber? (cs : List Char) : Option Nat :=
  cs.foldlM (fun value c => (hexValue? c).map (value * 16 + ·)) 0

/-- The character of a code point that is given by so many hexadecimal digits. -/
def readCodePoint (count : Nat) (c : Cursor) : Option (Char × Cursor) := do
  let digits := c.ahead.take count
  if digits.length < count then none
  let value ← hexNumber? digits
  if Nat.isValidChar value then some (Char.ofNat value, ⟨c.offset + count, c.ahead.drop count⟩) else none

/-- The character of an escape, after the backslash. -/
def readEscape (c : Cursor) : Option (Char × Cursor) :=
  match c.ahead with
  | [] => none
  | e :: rest =>
    let next : Cursor := ⟨c.offset + 1, rest⟩
    match e with
    | 'b' => some ('\x08', next)
    | 't' => some ('\t', next)
    | 'n' => some ('\n', next)
    | 'f' => some ('\x0c', next)
    | 'r' => some ('\r', next)
    | 'e' => some ('\x1b', next)
    | '"' => some ('"', next)
    | '\\' => some ('\\', next)
    | 'x' => readCodePoint 2 next
    | 'u' => readCodePoint 4 next
    | 'U' => readCodePoint 8 next
    | _ => none

/-- A text on one line after its opening quote, with escapes or not. Fuel is the number of characters. -/
def readLineText (quote : Char) (escapes : Bool) : Nat → List Char → Cursor → Option (String × Cursor)
  | 0, _, _ => none
  | fuel + 1, done, c =>
    match c.ahead with
    | [] => none
    | a :: rest =>
      if a = quote then some (String.ofList done.reverse, ⟨c.offset + 1, rest⟩)
      else if a = '\\' && escapes then do
        let (e, next) ← readEscape ⟨c.offset + 1, rest⟩
        readLineText quote escapes fuel (e :: done) next
      else if isPlain a then readLineText quote escapes fuel (a :: done) ⟨c.offset + a.utf8Size, rest⟩
      else none

/-- How many times a character stands at the front. -/
def runLength (a : Char) (cs : List Char) : Nat := (cs.takeWhile (· = a)).length

/-- The place after a line end, if there is one. -/
def lineEnd? (c : Cursor) : Option Cursor :=
  match c.ahead with
  | '\n' :: rest => some ⟨c.offset + 1, rest⟩
  | '\r' :: '\n' :: rest => some ⟨c.offset + 2, rest⟩
  | _ => none

/-- Moves past blanks and line ends; a lone carriage return stops it. -/
def skipLines : Nat → Cursor → Cursor
  | 0, c => c
  | fuel + 1, c =>
    match c.ahead with
    | ' ' :: rest | '\t' :: rest => skipLines fuel ⟨c.offset + 1, rest⟩
    | _ =>
      match lineEnd? c with
      | some next => skipLines fuel next
      | none => c

/-- Moves past blanks. -/
def skipBlanks (c : Cursor) : Cursor := c.skip fun a => a = ' ' || a = '\t'

/-- A text that may span lines, after its opening quotes and the line end there. -/
def readLinesText (quote : Char) (escapes : Bool) : Nat → List Char → Cursor → Option (String × Cursor)
  | 0, _, _ => none
  | fuel + 1, done, c =>
    let quotes := runLength quote c.ahead
    if 3 ≤ quotes then
      if quotes ≤ 5 then
        some (String.ofList (done.reverse ++ List.replicate (quotes - 3) quote),
          ⟨c.offset + quotes, c.ahead.drop quotes⟩)
      else none
    else
      match c.ahead with
      | [] => none
      | '\n' :: rest => readLinesText quote escapes fuel ('\n' :: done) ⟨c.offset + 1, rest⟩
      | '\r' :: '\n' :: rest =>
        readLinesText quote escapes fuel ('\n' :: '\r' :: done) ⟨c.offset + 2, rest⟩
      | a :: rest =>
        let next : Cursor := ⟨c.offset + a.utf8Size, rest⟩
        if a = '\\' && escapes then
          match next.ahead with
          | ' ' :: _ | '\t' :: _ | '\n' :: _ | '\r' :: _ => do
            let after ← lineEnd? (skipBlanks next)
            readLinesText quote escapes fuel done (skipLines after.ahead.length after)
          | _ => do
            let (e, next) ← readEscape next
            readLinesText quote escapes fuel (e :: done) next
        else if isPlain a then readLinesText quote escapes fuel (a :: done) next
        else none

/-- A text that begins at its first quote. -/
def readQuoted (quote : Char) (escapes : Bool) (c : Cursor) : Option (String × Cursor) :=
  if 3 ≤ runLength quote c.ahead then
    let inner : Cursor := ⟨c.offset + 3, c.ahead.drop 3⟩
    readLinesText quote escapes (c.ahead.length + 1) [] ((lineEnd? inner).getD inner)
  else readLineText quote escapes (c.ahead.length + 1) [] ⟨c.offset + 1, c.ahead.drop 1⟩

end TypeScribe.Toml

import TypeScribe.Json.Fault
import TypeScribe.Text.Digit

/-!
# Texts and numbers in nested objects

A text stands in double quotes and may hold escapes; a surrogate escape must be one half of a pair. A number
keeps the digits of its integer and fraction that fit an unsigned word; further digits only count. A whole
number that fits a signed or unsigned word stays whole. Any other is the kept digits, rounded, times or over a
power of ten, rounded again.
-/

namespace TypeScribe.Json

/-- A problem at a number of bytes. -/
def fail {α : Type} (problem : Problem) (offset : Nat) : Except ReadFault α := .error ⟨problem, offset⟩

/-- The value of four hexadecimal digits. -/
def unitValue? (a b c d : Char) : Option Nat := do
  let a ← hexValue? a
  let b ← hexValue? b
  let c ← hexValue? c
  let d ← hexValue? d
  return ((a * 16 + b) * 16 + c) * 16 + d

/-- Four hexadecimal digits. The problem is at the end of the text if less than four bytes are left. -/
def scanUnit (c : Cursor) : Except ReadFault (Nat × Cursor) :=
  match c.ahead with
  | a :: b :: d :: e :: rest =>
    match unitValue? a b d e with
    | some value => .ok (value, ⟨c.offset + 4, rest⟩)
    | none => fail .badEscape (c.offset + 4)
  | short =>
    if byteLength short < 4 then fail .endInText (c.offset + byteLength short)
    else fail .badEscape (c.offset + 4)

/-- The second half of a pair of surrogates. -/
def scanPair (high : Nat) (c : Cursor) : Except ReadFault (Char × Cursor) :=
  match c.ahead with
  | [] => fail .endInText c.offset
  | ['\\'] => fail .endInText (c.offset + 1)
  | '\\' :: 'u' :: rest => do
    let (low, next) ← scanUnit ⟨c.offset + 2, rest⟩
    if 0xDC00 ≤ low && low ≤ 0xDFFF then
      return (Char.ofNat ((high - 0xD800) * 0x400 + (low - 0xDC00) + 0x10000), next)
    else fail .loneSurrogate next.offset
  | '\\' :: _ => fail .brokenPair (c.offset + 2)
  | _ => fail .brokenPair (c.offset + 1)

/-- The character of an escape by code units. -/
def scanCodePoint (c : Cursor) : Except ReadFault (Char × Cursor) := do
  let (value, next) ← scanUnit c
  if 0xDC00 ≤ value && value ≤ 0xDFFF then fail .loneSurrogate next.offset
  else if 0xD800 ≤ value && value ≤ 0xDBFF then scanPair value next
  else return (Char.ofNat value, next)

/-- The character of an escape, after the backslash. -/
def scanEscape (c : Cursor) : Except ReadFault (Char × Cursor) :=
  match c.ahead with
  | [] => fail .endInText c.offset
  | e :: rest =>
    let next : Cursor := ⟨c.offset + 1, rest⟩
    match e with
    | '"' => .ok ('"', next)
    | '\\' => .ok ('\\', next)
    | '/' => .ok ('/', next)
    | 'b' => .ok ('\x08', next)
    | 'f' => .ok ('\x0c', next)
    | 'n' => .ok ('\n', next)
    | 'r' => .ok ('\r', next)
    | 't' => .ok ('\t', next)
    | 'u' => scanCodePoint next
    | _ => fail .badEscape next.offset

/-- The characters of a text up to the closing quote. Fuel is the number of characters ahead. -/
def scanCharacters : Nat → List Char → Cursor → Except ReadFault (String × Cursor)
  | 0, _, c => fail .endInText c.offset
  | fuel + 1, done, c =>
    match c.ahead with
    | [] => fail .endInText c.offset
    | '"' :: rest => .ok (String.ofList done.reverse, ⟨c.offset + 1, rest⟩)
    | '\\' :: rest => do
      let (e, next) ← scanEscape ⟨c.offset + 1, rest⟩
      scanCharacters fuel (e :: done) next
    | a :: rest =>
      if a.toNat < 0x20 then fail .controlCharacter (c.offset + 1)
      else scanCharacters fuel (a :: done) ⟨c.offset + a.utf8Size, rest⟩

/-- A text after its opening quote. -/
def scanText (c : Cursor) : Except ReadFault (String × Cursor) := scanCharacters (c.ahead.length + 1) [] c

/-- The digits in front of a place. -/
def takeDigits (c : Cursor) : List Char × Cursor :=
  let digits := c.ahead.takeWhile Char.isDigit
  (digits, ⟨c.offset + digits.length, c.ahead.drop digits.length⟩)

/-- The first number that does not fit an unsigned word. -/
def wordLimit : Nat := Nat.pow 2 64

/-- Appends digits as long as the value fits a word; the value, and how many digits were left. -/
def appendDigits : Nat → List Char → Nat × Nat
  | value, [] => (value, 0)
  | value, d :: rest =>
    let longer := value * 10 + digitValue d
    if longer < wordLimit then appendDigits longer rest else (value, (d :: rest).length)

/-- The power of ten with which a number is scaled in one step. -/
def scaleStep : Nat := 308

/-- A number times a power of ten, rounded after each factor; none if it grows too large. -/
def scaleByTen : Nat → Double → Int → Option Double
  | 0, value, _ => some value
  | fuel + 1, value, exponent =>
    if exponent.natAbs ≤ scaleStep then
      let power := Double.ofDecimal false 1 exponent.natAbs
      if 0 ≤ exponent then
        let scaled := value.mul power
        if scaled.isInfinite then none else some scaled
      else some (value.div power)
    else if value.isZero then some value
    else if 0 ≤ exponent then none
    else scaleByTen fuel (value.div (Double.ofDecimal false 1 scaleStep)) (exponent + scaleStep)

/-- The number of some digits times a power of ten. Three steps bring every word to zero. -/
def fromDigits (negative : Bool) (digits : Nat) (exponent : Int) (c : Cursor) :
    Except ReadFault (Number × Cursor) :=
  match scaleByTen 4 (Double.ofRatio false digits 1) exponent with
  | some (.finite _ mantissa power) => .ok (.double (.finite negative mantissa power), c)
  | some value => .ok (.double value, c)
  | none => fail .numberTooLarge c.offset

/-- Reads exponent digits as long as they fit a signed word of 32 bits; none with the place after the digit
that does not fit. -/
def exponentDigits : Nat → Cursor → List Char → Except Cursor (Nat × Cursor)
  | value, c, d :: rest =>
    if d.isDigit then
      let longer := value * 10 + digitValue d
      let next : Cursor := ⟨c.offset + 1, rest⟩
      if longer < Nat.pow 2 31 then exponentDigits longer next rest else .error next
    else .ok (value, c)
  | value, c, [] => .ok (value, c)

/-- The exponent after its mark, and with it the number. An exponent that does not fit makes the number zero
or too large. -/
def scanExponent (negative : Bool) (digits : Nat) (exponent : Int) (c : Cursor) :
    Except ReadFault (Number × Cursor) :=
  let (down, c) : Bool × Cursor := match c.ahead with
    | '+' :: rest => (false, ⟨c.offset + 1, rest⟩)
    | '-' :: rest => (true, ⟨c.offset + 1, rest⟩)
    | _ => (false, c)
  match c.ahead with
  | [] => fail .endInValue c.offset
  | d :: _ =>
    if !d.isDigit then fail .badNumber (c.offset + 1)
    else
      match exponentDigits 0 c c.ahead with
      | .ok (value, next) =>
        fromDigits negative digits (if down then exponent - value else exponent + value) next
      | .error next =>
        if digits ≠ 0 && !down then fail .numberTooLarge next.offset
        else .ok (.double (.finite negative 0 Double.minExponent), (takeDigits next).2)

/-- The fraction after its point, and with it the number. -/
def scanFraction (negative : Bool) (digits : Nat) (exponent : Int) (c : Cursor) :
    Except ReadFault (Number × Cursor) :=
  let (fraction, next) := takeDigits c
  if fraction.isEmpty then
    fail (if c.ahead.isEmpty then .endInValue else .badNumber) c.peeked
  else
    let (digits, left) := appendDigits digits fraction
    let exponent := exponent - ((fraction.length - left : Nat) : Int)
    match next.ahead with
    | 'e' :: rest | 'E' :: rest => scanExponent negative digits exponent ⟨next.offset + 1, rest⟩
    | _ => fromDigits negative digits exponent next

/-- A whole number, if it fits a word; negative zero is none. -/
def wholeNumber (negative : Bool) (digits : Nat) : Number :=
  if !negative then .integer digits
  else if digits ≠ 0 && digits ≤ Nat.pow 2 63 then .integer (-digits)
  else .double (Double.ofRatio true digits 1)

/-- A number after its sign. -/
def scanNumber (negative : Bool) (c : Cursor) : Except ReadFault (Number × Cursor) :=
  let (whole, next) := takeDigits c
  match whole with
  | [] => if c.ahead.isEmpty then fail .endInValue c.offset else fail .badNumber (c.offset + 1)
  | '0' :: _ :: _ => fail .badNumber (c.offset + 2)
  | _ =>
    let (digits, left) := appendDigits 0 whole
    match next.ahead with
    | '.' :: rest => scanFraction negative digits left ⟨next.offset + 1, rest⟩
    | 'e' :: rest | 'E' :: rest => scanExponent negative digits left ⟨next.offset + 1, rest⟩
    | _ =>
      if left = 0 then .ok (wholeNumber negative digits, next)
      else fromDigits negative digits left next

end TypeScribe.Json

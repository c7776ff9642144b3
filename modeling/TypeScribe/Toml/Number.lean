import TypeScribe.Toml.Text
import TypeScribe.Tree.Node

/-!
# Numbers in tables

Whole numbers in four bases and numbers with a fraction or an exponent. Underscores may stand between two
digits and after a sign, and a decimal does not begin with a zero that another digit follows. A whole number
may be garbled: what follows its first underscore is not looked at until its value is asked for.
-/

namespace TypeScribe.Toml

/-- Digits of a class without the underscores between them. The flag tells whether a digit was just read. -/
def digitsAfter? (p : Char → Bool) : Bool → List Char → Option (List Char)
  | afterDigit, [] => if afterDigit then some [] else none
  | afterDigit, c :: rest =>
    if c = '_' then if afterDigit then digitsAfter? p false rest else none
    else if p c then (digitsAfter? p true rest).map (c :: ·)
    else none

/-- Digits of a class without the underscores between them. -/
def digits? (p : Char → Bool) (cs : List Char) : Option (List Char) := digitsAfter? p false cs

/-- The value of digits in a base. -/
def baseValue (base : Nat) (cs : List Char) : Nat :=
  cs.foldl (fun value c => value * base + (hexValue? c).getD 0) 0

/-- Decimal digits without a zero in front of others. -/
def decimal? (cs : List Char) : Option (List Char) := do
  let digits ← digits? Char.isDigit cs
  if digits.head? = some '0' && 1 < digits.length then none else some digits

/-- What stands before and after the first character of a class, if there is one. -/
def splitAt? (p : Char → Bool) (cs : List Char) : List Char × Option (List Char) :=
  let before := cs.takeWhile fun c => !p c
  match cs.drop before.length with
  | [] => (before, none)
  | _ :: after => (before, some after)

/-- A sign and what follows it. -/
def splitSign (cs : List Char) : Option Char × List Char :=
  match cs with
  | '+' :: rest => (some '+', rest)
  | '-' :: rest => (some '-', rest)
  | _ => (none, cs)

/-- The value of the digits of an exponent with a sign. -/
def exponent? (cs : List Char) : Option Int := do
  let (sign, rest) := splitSign cs
  let digits ← digits? Char.isDigit rest
  let value : Int := baseValue 10 digits
  return if sign = some '-' then -value else value

/-- A number from its decimal parts. -/
def fromParts (negative : Bool) (whole fraction : List Char) (exponent : Int) : Number :=
  match Double.ofDecimal negative (baseValue 10 (whole ++ fraction)) (exponent - fraction.length) with
  | .infinite _ => .overflow
  | value => .double value

/-- Whether a character belongs to a fraction or an exponent. -/
def isFractional (c : Char) : Bool := c = '.' || c = 'e' || c = 'E'

/-- A number with a fraction, an exponent or both, after its sign. The reader of the digits before the point
says which zeros may lead. -/
def fractionNumber? (whole? : List Char → Option (List Char)) (negative : Bool) (cs : List Char) :
    Option Number := do
  let (mantissa, exponent) := splitAt? (fun c => c = 'e' || c = 'E') cs
  let (whole, fraction) := splitAt? (· = '.') mantissa
  let whole ← whole? whole
  let fraction ← (fraction.map (digits? Char.isDigit)).getD (some [])
  let exponent ← (exponent.map exponent?).getD (some 0)
  return fromParts negative whole fraction exponent

/-- Whether every underscore stands between two hexadecimal digits. The flag tells whether one was just read. -/
def underscoresFit : Bool → List Char → Bool
  | _, [] => true
  | afterDigit, '_' :: rest =>
    afterDigit && (rest.head?.bind hexValue?).isSome && underscoresFit false rest
  | _, c :: rest => underscoresFit (hexValue? c).isSome rest

/-- A decimal whole number after its sign. Only its underscores are looked at before its value is asked for,
so it may turn out to be garbled. -/
def wholeNumber? (negative : Bool) (cs : List Char) : Option Number :=
  if cs.isEmpty || !underscoresFit false cs then none
  else
    match digits? Char.isDigit cs with
    | none => some .garbled
    | some digits =>
      let value : Int := baseValue 10 digits
      some (.integer (if negative then -value else value))

/-- A decimal number after its sign. What is not a plain row of digits has an underscore after the first
ones. -/
def decimalNumber? (negative : Bool) (cs : List Char) : Option Number :=
  if cs.any isFractional then fractionNumber? decimal? negative cs
  else if cs.head? = some '0' && 1 < cs.length then none
  else
    match cs.dropWhile Char.isDigit with
    | [] | '_' :: _ => wholeNumber? negative cs
    | _ => none

/-- A decimal number after its sign and an underscore, where zeros may lead. -/
def looseNumber? (negative : Bool) (cs : List Char) : Option Number :=
  if cs.any isFractional then fractionNumber? (digits? Char.isDigit) negative cs
  else if (cs.head?.bind hexValue?).isSome then wholeNumber? negative cs
  else none

/-- A whole number in a base after the mark of the base, which says nothing if it stands alone. -/
def basedNumber? (base : Nat) (cs : List Char) : Option Number :=
  if cs.isEmpty then some .garbled
  else (digits? (fun c => (hexValue? c).any (· < base)) cs).map fun digits =>
    .integer (baseValue base digits)

/-- A number as it is written. -/
def number? (cs : List Char) : Option Number :=
  match cs with
  | '0' :: 'x' :: rest => basedNumber? 16 rest
  | '0' :: 'o' :: rest => basedNumber? 8 rest
  | '0' :: 'b' :: rest => basedNumber? 2 rest
  | _ =>
    let (sign, rest) := splitSign cs
    let negative := sign = some '-'
    if rest = ['i', 'n', 'f'] then some (.double (.infinite negative))
    else if rest = ['n', 'a', 'n'] then some (.double .nan)
    else
      match sign, rest with
      | some _, '_' :: rest => looseNumber? negative rest
      | _, _ => decimalNumber? negative rest

end TypeScribe.Toml

import TypeScribe.Text.Digit

/-!
# Dates and times in tables

A date, a time of day, or both with an offset from universal time or without. Seconds that are left out are
zero, and a fraction of zero is not shown.
-/

namespace TypeScribe.Toml

/-- How many days a month of a year has. -/
def daysInMonth (year month : Nat) : Nat :=
  if month = 2 then if year % 4 = 0 && (year % 100 ≠ 0 || year % 400 = 0) then 29 else 28
  else if month = 4 || month = 6 || month = 9 || month = 11 then 30
  else 31

/-- A number of exactly so many decimal digits, and what follows. -/
def fixedDigits? (count : Nat) (cs : List Char) : Option (Nat × List Char) :=
  let digits := cs.take count
  if digits.length = count && digits.all Char.isDigit then
    some (decimalValue digits, cs.drop count)
  else none

/-- A number with zeros in front to a width. -/
def padded (width value : Nat) : String :=
  let digits := Nat.toDigits 10 value
  String.ofList (List.replicate (width - digits.length) '0' ++ digits)

/-- What follows a character. -/
def after? (c : Char) : List Char → Option (List Char)
  | a :: rest => if a = c then some rest else none
  | [] => none

/-- A date in its only form, and what follows. -/
def date? (cs : List Char) : Option (String × List Char) := do
  let (year, cs) ← fixedDigits? 4 cs
  let cs ← after? '-' cs
  let (month, cs) ← fixedDigits? 2 cs
  let cs ← after? '-' cs
  let (day, cs) ← fixedDigits? 2 cs
  if 1 ≤ month && month ≤ 12 && 1 ≤ day && day ≤ daysInMonth year month then
    some (padded 4 year ++ "-" ++ padded 2 month ++ "-" ++ padded 2 day, cs)
  else none

/-- The fraction of a second without zeros at its end, from its first nine digits. -/
def fractionText (digits : List Char) : String :=
  let kept := ((digits.take 9).reverse.dropWhile (· = '0')).reverse
  if kept.isEmpty then "" else "." ++ String.ofList kept

/-- The seconds of a time, and what follows. -/
def seconds? (cs : List Char) : Option (String × List Char) :=
  match cs with
  | ':' :: rest => do
    let (second, rest) ← fixedDigits? 2 rest
    if 60 < second then none
    match rest with
    | '.' :: fraction =>
      let digits := fraction.takeWhile Char.isDigit
      if digits.isEmpty then none
      else some (":" ++ padded 2 second ++ fractionText digits, fraction.drop digits.length)
    | _ => some (":" ++ padded 2 second, rest)
  | _ => some (":00", cs)

/-- A time of day, and what follows. -/
def time? (cs : List Char) : Option (String × List Char) := do
  let (hour, cs) ← fixedDigits? 2 cs
  let cs ← after? ':' cs
  let (minute, cs) ← fixedDigits? 2 cs
  let (seconds, cs) ← seconds? cs
  if hour ≤ 23 && minute ≤ 59 then
    some (padded 2 hour ++ ":" ++ padded 2 minute ++ seconds, cs)
  else none

/-- An offset of less than one day, or nothing. -/
def offset? (cs : List Char) : Option String :=
  match cs with
  | [] => some ""
  | ['Z'] | ['z'] => some "Z"
  | sign :: rest => do
    if sign ≠ '+' && sign ≠ '-' then none
    let (hours, rest) ← fixedDigits? 2 rest
    let rest ← after? ':' rest
    let (minutes, rest) ← fixedDigits? 2 rest
    if rest.isEmpty && hours ≤ 23 && minutes ≤ 59 then
      some ((if sign = '-' && hours + minutes ≠ 0 then "-" else "+") ++ padded 2 hours ++ ":"
        ++ padded 2 minutes)
    else none

/-- The normal form of a date, a time, or both. -/
def moment? (cs : List Char) : Option String :=
  match date? cs with
  | some (date, []) => some date
  | some (date, mark :: rest) => do
    if mark ≠ 'T' && mark ≠ 't' && mark ≠ ' ' then none
    let (time, rest) ← time? rest
    let offset ← offset? rest
    return date ++ "T" ++ time ++ offset
  | none => do
    let (time, rest) ← time? cs
    if rest.isEmpty then some time else none

/-- Whether some characters are no more than a date, so that a time may follow after a space. -/
def isDate (cs : List Char) : Bool :=
  match date? cs with
  | some (_, []) => true
  | _ => false

end TypeScribe.Toml

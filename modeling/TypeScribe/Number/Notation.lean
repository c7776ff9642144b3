import TypeScribe.Number.Shortest

/-!
# Written numbers

A finite number is written with the digits of its shortest decimal. A style says when an exponent is used,
whether it shows a plus sign, whether a whole number shows a zero after the point, and which way a tie between
two decimals goes.
-/

namespace TypeScribe

/-- The decisions that are left open by the digits. -/
structure NumberStyle where
  /-- The least and greatest position of the point for which no exponent is used; none if it never is. -/
  plain : Option (Int × Int)
  /-- Whether a whole number ends in a zero after the point. -/
  wholeZero : Bool
  /-- Whether an exponent above zero has a plus sign. -/
  plusSign : Bool
  /-- Whether the greater of two equally near decimals is taken. -/
  tieUp : Bool
deriving DecidableEq, Repr

namespace NumberStyle

/-- The style of numbers in code: no exponents, and no point in a whole number. -/
def code : NumberStyle := ⟨none, false, false, true⟩

/-- The style of numbers in messages about documents with tables and headers: no exponents, always a point. -/
def pointed : NumberStyle := ⟨none, true, false, true⟩

/-- The style of numbers in messages about other documents: exponents with their sign for far positions of the
point. -/
def scientific : NumberStyle := ⟨some (-4, 16), true, true, false⟩

end NumberStyle

/-- The digits of a decimal with a point in place, and zeros to fill up. -/
def Decimal.positional (d : Decimal) (wholeZero : Bool) : String :=
  let digits := Nat.toDigits 10 d.digits
  if 0 ≤ d.exponent then
    String.ofList (digits ++ List.replicate d.exponent.natAbs '0') ++ (if wholeZero then ".0" else "")
  else
    let places := d.exponent.natAbs
    let padded := List.replicate (places + 1 - digits.length) '0' ++ digits
    String.ofList (padded.take (padded.length - places) ++ '.' :: padded.drop (padded.length - places))

/-- The digits of a decimal with the point after the first and an exponent. -/
def Decimal.scientific (d : Decimal) (plusSign : Bool) : String :=
  let digits := Nat.toDigits 10 d.digits
  let exponent : Int := d.exponent + digits.length - 1
  String.ofList (digits.take 1)
    ++ (if digits.length = 1 then "" else "." ++ String.ofList (digits.drop 1))
    ++ "e" ++ (if plusSign && 0 < exponent then "+" else "") ++ toString exponent

/-- A number in a style. -/
def Double.text (style : NumberStyle) : Double → String
  | .nan => "NaN"
  | .infinite negative => (if negative then "-" else "") ++ "inf"
  | .finite negative mantissa exponent =>
    let d := shortest mantissa exponent style.tieUp
    let point : Int := d.exponent + digitCount d.digits
    let isPlain := match style.plain with
      | none => true
      | some (least, greatest) => mantissa = 0 || (least ≤ point && point ≤ greatest)
    (if negative then "-" else "") ++ (if isPlain then d.positional style.wholeZero else d.scientific style.plusSign)

end TypeScribe

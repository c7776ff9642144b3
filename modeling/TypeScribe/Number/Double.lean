/-!
# Binary64 numbers

Numbers with 53 binary digits of precision, as exact values: a natural mantissa times a power of two. A ratio
is rounded to the nearest of them, a half to the even neighbour; products and quotients are rounded ratios.
-/

namespace TypeScribe

/-- A binary64 number. A finite one is its mantissa times two to its exponent. -/
inductive Double where
  | nan
  | infinite (negative : Bool)
  | finite (negative : Bool) (mantissa : Nat) (exponent : Int)
deriving DecidableEq, Repr

/-- The whole number nearest to a quotient; of two that are equally near, the even one. -/
def roundHalfEven (num den : Nat) : Nat :=
  let whole := num / den
  let twice := 2 * (num % den)
  if twice < den then whole
  else if den < twice then whole + 1
  else if whole % 2 = 0 then whole else whole + 1

namespace Double

/-- The least exponent of a finite number. -/
def minExponent : Int := -1074

/-- The greatest exponent of a finite number. -/
def maxExponent : Int := 971

/-- One more than the greatest mantissa. -/
def mantissaLimit : Nat := Nat.pow 2 53

/-- A ratio divided by a power of two, as a ratio. -/
def shifted (num den : Nat) (exponent : Int) : Nat × Nat :=
  let twos := Nat.pow 2 exponent.natAbs
  if exponent < 0 then (num * twos, den) else (num, den * twos)

/-- The exponent at which a ratio has a mantissa of full length, or the least one there is. -/
def exponentFor (num den : Nat) : Int :=
  let guess : Int := (num.log2 : Int) - den.log2 - 53
  let (n, d) := shifted num den guess
  max (if n / d < mantissaLimit then guess else guess + 1) minExponent

/-- The number nearest to a ratio. -/
def ofRatio (negative : Bool) (num den : Nat) : Double :=
  if num = 0 then .finite negative 0 minExponent
  else
    let exponent := exponentFor num den
    let (n, d) := shifted num den exponent
    let mantissa := roundHalfEven n d
    let (mantissa, exponent) :=
      if mantissa = mantissaLimit then (mantissaLimit / 2, exponent + 1) else (mantissa, exponent)
    if maxExponent < exponent then .infinite negative else .finite negative mantissa exponent

/-- The number nearest to some digits times a power of ten. Far outside the range of exponents the digits do
not matter. -/
def ofDecimal (negative : Bool) (digits : Nat) (exponent : Int) : Double :=
  let size : Int := (Nat.toDigits 10 digits).length + exponent
  if digits = 0 || size < -330 then .finite negative 0 minExponent
  else if 310 < size then .infinite negative
  else if exponent < 0 then ofRatio negative digits (Nat.pow 10 exponent.natAbs)
  else ofRatio negative (digits * Nat.pow 10 exponent.natAbs) 1

/-- The nearest number to a ratio times a power of two. -/
def ofShifted (negative : Bool) (num den : Nat) (exponent : Int) : Double :=
  let (n, d) := shifted num den (-exponent)
  ofRatio negative n d

/-- The rounded product of two finite numbers; any other operand gives no number. -/
def mul : Double → Double → Double
  | .finite s m e, .finite s' m' e' => ofShifted (s != s') (m * m') 1 (e + e')
  | _, _ => .nan

/-- The rounded quotient of two finite numbers; any other operand, and a zero divisor, give no number. -/
def div : Double → Double → Double
  | .finite s m e, .finite s' m' e' =>
    if m' = 0 then .nan else ofShifted (s != s') m m' (e - e')
  | _, _ => .nan

/-- Whether a number is one of the two zeros. -/
def isZero : Double → Bool
  | .finite _ mantissa _ => mantissa == 0
  | _ => false

/-- Whether a number is infinite. -/
def isInfinite : Double → Bool
  | .infinite _ => true
  | _ => false

end Double

end TypeScribe

/-!
# SharedPlan.Json.Number

When a JSON number is too large to be kept as a 64-bit floating-point number.

The first digits that fit 64 bits are the significand; further digits before the
point only count towards the exponent, further ones behind it not at all.  The
value is the product of two floating-point numbers, the rounded significand and
the rounded power of ten, and it is out of range when that product is not below
the overflow threshold.
-/

namespace SharedPlan

namespace Json

/-- A natural number rounded to 53 significant bits, a tie going to the even
neighbour. -/
def roundTo53 (n : Nat) : Nat :=
  let shift := n.log2 + 1 - 53
  let unit := Nat.pow 2 shift
  let below := n % unit
  let quotient := n / unit
  if unit < 2 * below ∨ unit = 2 * below ∧ quotient % 2 = 1 then (quotient + 1) * unit
  else quotient * unit

/-- The least value that rounds to no finite floating-point number. -/
def overflow : Nat := Nat.pow 2 1024 - Nat.pow 2 970

/-- Whether a significand takes another digit within 64 bits. -/
def takesDigit (significand digit : Nat) : Bool := significand * 10 + digit < UInt64.size

/-- The significand of the digits before the point, and how many digits it does
not hold. -/
def wholeDigits (significand : Nat) : List Char → Nat × Nat
  | [] => (significand, 0)
  | c :: rest =>
    if takesDigit significand (c.toNat - 48) then
      wholeDigits (significand * 10 + (c.toNat - 48)) rest
    else (significand, rest.length + 1)

/-- The significand with the digits behind the point that it can take, and how
many those are. -/
def fractionDigits (significand : Nat) : List Char → Nat × Nat
  | [] => (significand, 0)
  | c :: rest =>
    if takesDigit significand (c.toNat - 48) then
      let (s, n) := fractionDigits (significand * 10 + (c.toNat - 48)) rest
      (s, n + 1)
    else (significand, 0)

/-- Whether a significand times a power of ten is a finite floating-point number. -/
def finiteProduct (significand : Nat) (exponent : Int) : Bool :=
  significand = 0 || exponent < 0 ||
    exponent ≤ 308 && roundTo53 significand * roundTo53 (Nat.pow 10 exponent.toNat) < overflow

/-- The exponent that a number is written with; a missing one is zero. -/
def writtenExponent : List Char → Int
  | '-' :: digits => -(Nat.ofDigitChars 10 digits 0 : Int)
  | '+' :: digits => Nat.ofDigitChars 10 digits 0
  | digits => Nat.ofDigitChars 10 digits 0

/-- Whether a number can be kept as a 64-bit integer or floating-point number. -/
def inRange (lexeme : List Char) : Bool :=
  let unsigned := if lexeme.head? = some '-' then lexeme.tail else lexeme
  let mantissa := unsigned.takeWhile fun c => c ≠ 'e' ∧ c ≠ 'E'
  let exponent := writtenExponent ((unsigned.dropWhile fun c => c ≠ 'e' ∧ c ≠ 'E').drop 1)
  let (whole, extra) := wholeDigits 0 (mantissa.takeWhile (· ≠ '.'))
  let (significand, places) := fractionDigits whole ((mantissa.dropWhile (· ≠ '.')).drop 1)
  finiteProduct significand (exponent + extra - places)

end Json

end SharedPlan

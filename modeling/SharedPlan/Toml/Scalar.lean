import SharedPlan.Toml.Text

/-!
# SharedPlan.Toml.Scalar

Numbers, dates and times, and what is known of a value once it has been read.

Only integers and truth values keep what they stand for; of every other value it
is enough to know that it is well formed.
-/

namespace SharedPlan

namespace Toml

open Reader

/-- A TOML value, as far as it is looked at. -/
inductive Value where
  | integer (n : Int)
  | boolean (b : Bool)
  | float
  | string
  | dateTime
  | array
  | table
  deriving DecidableEq, Inhabited

/-! ## Numbers -/

/-- Read further digits of a class, each behind at most one underscore; `n`
bounds their number. -/
def moreDigits (p : Char → Bool) : Nat → Reader (List Char)
  | 0 => pure []
  | n + 1 => do
    match ← peek with
    | some '_' =>
      char '_'
      let c ← one p
      return c :: (← moreDigits p n)
    | some c =>
      if p c then
        char c
        return c :: (← moreDigits p n)
      else return []
    | none => return []

/-- Read digits of a class, the first without an underscore. -/
def digitRun (p : Char → Bool) : Reader (List Char) := do
  let c ← one p
  let s ← get
  return c :: (← moreDigits p s.length)

/-- Read a sign: whether it is a minus. -/
def sign : Reader Bool := do
  match ← peek with
  | some '-' =>
    char '-'
    return true
  | some '+' =>
    char '+'
    return false
  | _ => return false

/-- Read the digits of a decimal integer, which has no leading zero. -/
def decimalDigits : Reader (List Char) := do
  if (← peek) = some '0' then
    char '0'
    return ['0']
  else digitRun Char.isDigit

/-- The number that digits of a base stand for. -/
def digitsValue (base : Nat) (digits : List Char) : Nat :=
  digits.foldl (fun n c => n * base + hexValue c) 0

/-- The least natural number that is no 64-bit signed integer; its negative is one. -/
def maxMagnitude : Nat := Nat.pow 2 63

/-- Read an integer of another base behind its mark. -/
def basedInteger (mark : Char) (base : Nat) (p : Char → Bool) : Reader Value := do
  chars ['0', mark]
  let n := digitsValue base (← digitRun p)
  require (n < maxMagnitude)
  return .integer n

/-- Read a decimal integer. -/
def decimalInteger : Reader Value := do
  let negative ← sign
  let n := digitsValue 10 (← decimalDigits)
  require (if negative then n ≤ maxMagnitude else n < maxMagnitude)
  return .integer (if negative then -n else n)

/-- Read an integer. -/
def integer : Reader Value :=
  basedInteger 'x' 16 isHexDigit <|>
    basedInteger 'o' 8 (fun c => '0' ≤ c && c ≤ '7') <|>
    basedInteger 'b' 2 (fun c => c = '0' || c = '1') <|>
    decimalInteger

/-- Whether digits times a power of ten lie beyond every 64-bit floating-point
number. -/
def tooLarge (digits : List Char) (exponent : Int) : Bool :=
  let n := digitsValue 10 digits
  let bound := Nat.pow 2 1024 - Nat.pow 2 970
  n ≠ 0 &&
    (if 0 ≤ exponent then 400 < exponent || bound ≤ n * Nat.pow 10 exponent.toNat
      else bound ≤ n / Nat.pow 10 (min (-exponent).toNat digits.length))

/-- Read the exponent of a float. -/
def exponent : Reader Int := do
  let _ ← one fun c => c = 'e' || c = 'E'
  let negative ← sign
  let n := digitsValue 10 (← digitRun Char.isDigit)
  return if negative then -n else n

/-- Read the digits behind the point of a float. -/
def fraction : Reader (List Char) := do
  char '.'
  digitRun Char.isDigit

/-- Read a float; a positive one that is too large is refused. -/
def float : Reader Value := do
  let negative ← sign
  if let some _ ← maybe (chars "inf".toList <|> chars "nan".toList) then return .float
  let whole ← decimalDigits
  let places ← maybe fraction
  let e ← maybe exponent
  require (places.isSome || e.isSome)
  let digits := whole ++ places.getD []
  require (negative || !tooLarge digits (e.getD 0 - (places.getD []).length))
  return .float

/-! ## Dates and times -/

/-- Read a number of a given count of digits within bounds. -/
def numberWithin (digits least most : Nat) : Reader Nat := do
  let n := digitsValue 10 (← exactly Char.isDigit digits)
  require (least ≤ n && n ≤ most)
  return n

/-- The number of days of a month. -/
def daysOfMonth (year month : Nat) : Nat :=
  if month = 2 then
    if year % 4 = 0 ∧ (year % 100 ≠ 0 ∨ year % 400 = 0) then 29 else 28
  else if month ∈ [4, 6, 9, 11] then 30
  else 31

/-- Read a date. -/
def date : Reader Unit := do
  let year ← numberWithin 4 0 9999
  char '-'
  let month ← numberWithin 2 1 12
  char '-'
  let _ ← numberWithin 2 1 (daysOfMonth year month)

/-- Read a time of day. -/
def time : Reader Unit := do
  let _ ← numberWithin 2 0 23
  char ':'
  let _ ← numberWithin 2 0 59
  char ':'
  let _ ← numberWithin 2 0 60
  let _ ← maybe do
    char '.'
    let _ ← one Char.isDigit
    many Char.isDigit

/-- Read the offset of a time. -/
def offset : Reader Unit :=
  (do
    let _ ← one fun c => c = 'Z' || c = 'z') <|>
  (do
    let _ ← one fun c => c = '+' || c = '-'
    let _ ← numberWithin 2 0 23
    char ':'
    let _ ← numberWithin 2 0 59)

/-- Read a date, a time, or both. -/
def dateTime : Reader Value :=
  (do
    date
    let _ ← maybe do
      let _ ← one fun c => c = 'T' || c = 't' || c = ' '
      time
      maybe offset
    return .dateTime) <|>
  (do
    time
    return .dateTime)

/-- Read a truth value. -/
def boolean : Reader Value :=
  (do
    chars "true".toList
    return .boolean true) <|>
  (do
    chars "false".toList
    return .boolean false)

/-- Read a value that holds no other values. -/
def scalar : Reader Value :=
  (do
    stringValue
    return .string) <|>
  boolean <|> dateTime <|> float <|> integer

end Toml

end SharedPlan

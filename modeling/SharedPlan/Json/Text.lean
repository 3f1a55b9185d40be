/-!
# SharedPlan.Json.Text

The text of a JSON string: what stands between its quotation marks, and which
text that stands for.

Writing escapes the quotation mark, the backslash and the control characters, and
leaves every other character as it is.  Reading accepts every escape of the
format; a `\u` escape outside the basic plane takes a pair of surrogates, and half
of a pair is no text.
-/

namespace SharedPlan

namespace Json

/-- The value of a hexadecimal digit. -/
def hexValue? (c : Char) : Option Nat :=
  if '0' ≤ c ∧ c ≤ '9' then some (c.toNat - 48)
  else if 'a' ≤ c ∧ c ≤ 'f' then some (c.toNat - 87)
  else if 'A' ≤ c ∧ c ≤ 'F' then some (c.toNat - 55)
  else none

/-- The hexadecimal digit of a value below 16. -/
def hexDigit (n : Nat) : Char := Char.ofNat (if n < 10 then 48 + n else 87 + n)

/-- The value of four hexadecimal digits. -/
def hexUnit? (a b c d : Char) : Option Nat := do
  let a ← hexValue? a
  let b ← hexValue? b
  let c ← hexValue? c
  let d ← hexValue? d
  return ((a * 16 + b) * 16 + c) * 16 + d

/-- The character that a short escape stands for. -/
def shortEscape? : Char → Option Char
  | '"' => some '"'
  | '\\' => some '\\'
  | '/' => some '/'
  | 'b' => some '\x08'
  | 'f' => some '\x0c'
  | 'n' => some '\n'
  | 'r' => some '\r'
  | 't' => some '\t'
  | _ => none

/-- The text that a string body stands for. -/
def decode : List Char → Option (List Char)
  | [] => some []
  | '\\' :: 'u' :: a :: b :: c :: d :: rest => do
    let unit ← hexUnit? a b c d
    if unit < 0xD800 ∨ 0xDFFF < unit then
      return Char.ofNat unit :: (← decode rest)
    else if unit < 0xDC00 then
      match rest with
      | '\\' :: 'u' :: a :: b :: c :: d :: rest =>
        let low ← hexUnit? a b c d
        if 0xDC00 ≤ low ∧ low ≤ 0xDFFF then
          return Char.ofNat (0x10000 + (unit - 0xD800) * 0x400 + (low - 0xDC00)) :: (← decode rest)
        else none
      | _ => none
    else none
  | '\\' :: c :: rest => do
    let c ← shortEscape? c
    return c :: (← decode rest)
  | c :: rest => do
    if c = '\\' ∨ c = '"' ∨ c < ' ' then none
    return c :: (← decode rest)

/-- How a character is written. -/
def encodeChar (c : Char) : List Char :=
  match c with
  | '"' => ['\\', '"']
  | '\\' => ['\\', '\\']
  | '\x08' => ['\\', 'b']
  | '\x0c' => ['\\', 'f']
  | '\n' => ['\\', 'n']
  | '\r' => ['\\', 'r']
  | '\t' => ['\\', 't']
  | c =>
    if c < ' ' then ['\\', 'u', '0', '0', hexDigit (c.toNat / 16), hexDigit (c.toNat % 16)]
    else [c]

/-- The body that a text is written as. -/
def encode (text : List Char) : List Char := text.flatMap encodeChar

end Json

end SharedPlan

/-!
# SharedPlan.Toml.Text

The smallest parts of a TOML text: blanks, line ends, comments, strings and keys.

A reader takes characters from the front of what is left of the text and answers
what they stand for, or refuses.  Blanks never include a line end, and a carriage
return stands only before a line feed.
-/

namespace SharedPlan

namespace Toml

/-- Reads from the front of a text. -/
abbrev Reader (α : Type) := StateT (List Char) Option α

namespace Reader

/-- Read one given character. -/
def char (c : Char) : Reader Unit
  | d :: rest => if d = c then some ((), rest) else none
  | [] => none

/-- Read given characters. -/
def chars : List Char → Reader Unit
  | [] => pure ()
  | c :: cs => do
    char c
    chars cs

/-- Read one character of a class. -/
def one (p : Char → Bool) : Reader Char
  | c :: rest => if p c then some (c, rest) else none
  | [] => none

/-- Read as many characters of a class as there are. -/
def many (p : Char → Bool) : Reader (List Char) := fun s => some (s.takeWhile p, s.dropWhile p)

/-- Read a given number of characters of a class. -/
def exactly (p : Char → Bool) : Nat → Reader (List Char)
  | 0 => pure []
  | n + 1 => do
    let c ← one p
    return c :: (← exactly p n)

/-- Read what may be missing. -/
def maybe {α : Type} (r : Reader α) : Reader (Option α) := fun s =>
  match r s with
  | some (a, rest) => some (some a, rest)
  | none => some (none, s)

/-- The next character, which stays. -/
def peek : Reader (Option Char) := fun s => some (s.head?, s)

/-- Refuse. -/
def refuse {α : Type} : Reader α := fun _ => none

/-- Refuse unless a condition holds. -/
def require (b : Bool) : Reader Unit := if b then pure () else refuse

end Reader

open Reader

/-! ## Blanks and line ends -/

/-- Blanks within a line. -/
def isBlank (c : Char) : Bool := c = ' ' || c = '\t'

/-- The characters that a comment may hold. -/
def isCommentChar (c : Char) : Bool := c = '\t' || ' ' ≤ c && c ≠ '\x7f'

/-- The characters that stand for themselves in a basic string. -/
def isBasicChar (c : Char) : Bool := isCommentChar c && c ≠ '"' && c ≠ '\\'

/-- The characters that stand for themselves in a literal string. -/
def isLiteralChar (c : Char) : Bool := isCommentChar c && c ≠ '\''

/-- The characters of a bare key. -/
def isBareChar (c : Char) : Bool := c.isAlphanum || c = '-' || c = '_'

/-- Skip blanks within a line. -/
def blanks : Reader Unit := do
  let _ ← many isBlank

/-- Read a line end. -/
def newline : Reader Unit
  | '\n' :: rest => some ((), rest)
  | '\r' :: '\n' :: rest => some ((), rest)
  | _ => none

/-- Read a line end, or meet the end of the text. -/
def lineEnd : Reader Unit
  | [] => some ((), [])
  | s => newline s

/-- Read a comment, up to the line end. -/
def comment : Reader Unit := do
  char '#'
  let _ ← many isCommentChar

/-- Read the rest of a line that holds no more than a comment. -/
def restOfLine : Reader Unit := do
  blanks
  let _ ← maybe comment
  lineEnd

/-- Skip blanks, line ends and comments; `inComment` tells whether the text
starts within a comment. -/
def skipSpace (inComment : Bool) : Reader Unit
  | '\n' :: rest => skipSpace false rest
  | '\r' :: '\n' :: rest => skipSpace false rest
  | c :: rest =>
    if inComment then if isCommentChar c then skipSpace true rest else none
    else if isBlank c then skipSpace false rest
    else if c = '#' then skipSpace true rest
    else if c = '\r' then none
    else some ((), c :: rest)
  | [] => if inComment then none else some ((), [])

/-- Skip blanks, line ends and comments. -/
def space : Reader Unit := skipSpace false

/-! ## Strings -/

/-- The value of a hexadecimal digit. -/
def hexValue (c : Char) : Nat :=
  if c.isDigit then c.toNat - 48 else if 'a' ≤ c then c.toNat - 87 else c.toNat - 55

/-- Whether a character is a hexadecimal digit. -/
def isHexDigit (c : Char) : Bool := c.isDigit || 'a' ≤ c && c ≤ 'f' || 'A' ≤ c && c ≤ 'F'

/-- The character with the code that hexadecimal digits give, if there is one. -/
def charOfHex? (digits : List Char) : Option Char :=
  let code := digits.foldl (fun n c => n * 16 + hexValue c) 0
  if digits.all isHexDigit ∧ code.isValidChar then some (Char.ofNat code) else none

/-- The character that a short escape stands for. -/
def shortEscape? : Char → Option Char
  | 'b' => some '\x08'
  | 'f' => some '\x0c'
  | 'n' => some '\n'
  | 'r' => some '\r'
  | 't' => some '\t'
  | '"' => some '"'
  | '\\' => some '\\'
  | _ => none

/-- Read a basic string behind its opening quotation mark. -/
def basicBody : Reader (List Char)
  | '"' :: rest => some ([], rest)
  | '\\' :: 'u' :: a :: b :: c :: d :: rest => do
    let char ← charOfHex? [a, b, c, d]
    let (text, rest) ← basicBody rest
    return (char :: text, rest)
  | '\\' :: 'U' :: a :: b :: c :: d :: e :: f :: g :: h :: rest => do
    let char ← charOfHex? [a, b, c, d, e, f, g, h]
    let (text, rest) ← basicBody rest
    return (char :: text, rest)
  | '\\' :: c :: rest => do
    let char ← shortEscape? c
    let (text, rest) ← basicBody rest
    return (char :: text, rest)
  | c :: rest =>
    if isBasicChar c then do
      let (text, rest) ← basicBody rest
      return (c :: text, rest)
    else none
  | [] => none

/-- Read a literal string behind its opening quotation mark. -/
def literalBody : Reader (List Char) := do
  let text ← many isLiteralChar
  char '\''
  return text

/-- Skip up to two quotation marks that belong to a string that ends here. -/
def lastQuotes (quote : Char) : Reader Unit
  | c :: d :: rest =>
    if c = quote then if d = quote then some ((), rest) else some ((), d :: rest)
    else some ((), c :: d :: rest)
  | [c] => if c = quote then some ((), []) else some ((), [c])
  | [] => some ((), [])

/-- Whether a line ends here but for blanks. -/
def endsLine (s : List Char) : Bool := (newline (s.dropWhile isBlank)).isSome

/-- Skip a basic string of several lines behind its opening quotation marks. -/
def basicLines : Reader Unit
  | '"' :: '"' :: '"' :: rest => lastQuotes '"' rest
  | '\r' :: '\n' :: rest => basicLines rest
  | '\\' :: 'u' :: a :: b :: c :: d :: rest =>
    if (charOfHex? [a, b, c, d]).isSome then basicLines rest else none
  | '\\' :: 'U' :: a :: b :: c :: d :: e :: f :: g :: h :: rest =>
    if (charOfHex? [a, b, c, d, e, f, g, h]).isSome then basicLines rest else none
  | '\\' :: c :: rest =>
    if (shortEscape? c).isSome || endsLine (c :: rest) then
      if c = '\r' then
        match rest with
        | '\n' :: rest => basicLines rest
        | _ => none
      else basicLines rest
    else none
  | c :: rest => if isBasicChar c || c = '"' || c = '\n' then basicLines rest else none
  | [] => none

/-- Skip a literal string of several lines behind its opening quotation marks. -/
def literalLines : Reader Unit
  | '\'' :: '\'' :: '\'' :: rest => lastQuotes '\'' rest
  | '\r' :: '\n' :: rest => literalLines rest
  | c :: rest => if isLiteralChar c || c = '\'' || c = '\n' then literalLines rest else none
  | [] => none

/-- Skip a string of any form. -/
def stringValue : Reader Unit
  | '"' :: '"' :: '"' :: rest => basicLines rest
  | '\'' :: '\'' :: '\'' :: rest => literalLines rest
  | '"' :: rest => (basicBody rest).map fun r => ((), r.2)
  | '\'' :: rest => (literalBody rest).map fun r => ((), r.2)
  | _ => none

/-! ## Keys -/

/-- The greatest number of parts of a key, and of arrays and inline tables
within one another. -/
def maxLevels : Nat := 79

/-- Read one part of a key. -/
def keyPart : Reader String := do
  match ← peek with
  | some '"' =>
    char '"'
    return .ofList (← basicBody)
  | some '\'' =>
    char '\''
    return .ofList (← literalBody)
  | _ =>
    let name ← many isBareChar
    require !name.isEmpty
    return .ofList name

/-- Read the parts of a key, of which there are at most `n`. -/
def keyParts : Nat → Reader (List String)
  | 0 => refuse
  | n + 1 => do
    blanks
    let part ← keyPart
    blanks
    if (← peek) = some '.' then
      char '.'
      return part :: (← keyParts n)
    else return [part]

/-- Read a key. -/
def key : Reader (List String) := keyParts maxLevels

end Toml

end SharedPlan

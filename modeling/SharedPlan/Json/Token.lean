import SharedPlan.Json.Text

/-!
# SharedPlan.Json.Token

The tokens of a JSON text, and the machine that finds them.

The machine reads one character at a time and never goes back: a number ends
where the next character cannot extend it, and that character begins the next
token.  Two words or numbers that touch become two tokens, which no value holds
side by side.
-/

namespace SharedPlan

namespace Json

/-- The tokens of a JSON text. -/
inductive Token where
  | openArray
  | closeArray
  | openObject
  | closeObject
  | colon
  | comma
  | null
  | bool (value : Bool)
  | number (lexeme : List Char)
  | string (body : List Char)
  deriving DecidableEq, Inhabited

/-- How far a number has been read. -/
inductive NumberPart where
  | sign
  | zero
  | digits
  | point
  | fraction
  | exponent
  | exponentSign
  | exponentDigits
  deriving DecidableEq

namespace NumberPart

/-- Whether a number may end here. -/
def complete : NumberPart → Bool
  | zero | digits | fraction | exponentDigits => true
  | _ => false

/-- The part that a number is in after one more character, if it can take it. -/
def extend? (p : NumberPart) (c : Char) : Option NumberPart :=
  match p with
  | sign => if c = '0' then some zero else if c.isDigit then some digits else none
  | zero =>
    if c = '.' then some point else if c = 'e' ∨ c = 'E' then some exponent else none
  | digits =>
    if c.isDigit then some digits
    else if c = '.' then some point
    else if c = 'e' ∨ c = 'E' then some exponent
    else none
  | point => if c.isDigit then some fraction else none
  | fraction =>
    if c.isDigit then some fraction else if c = 'e' ∨ c = 'E' then some exponent else none
  | exponent =>
    if c = '+' ∨ c = '-' then some exponentSign
    else if c.isDigit then some exponentDigits
    else none
  | exponentSign | exponentDigits => if c.isDigit then some exponentDigits else none

end NumberPart

/-- The state of the machine; what has been read of a token stands in reverse. -/
inductive Scan where
  /-- Between tokens. -/
  | between
  /-- In a word, of which some characters are still to come. -/
  | word (rest : List Char) (token : Token)
  /-- In a number. -/
  | number (read : List Char) (part : NumberPart)
  /-- In a string. -/
  | string (read : List Char)
  /-- In a string, behind a backslash. -/
  | escape (read : List Char)
  /-- In a string, with some hexadecimal digits to come. -/
  | hex (read : List Char) (missing : Nat)

/-- The characters that may stand between tokens. -/
def isBlank (c : Char) : Bool := c = ' ' || c = '\n' || c = '\t' || c = '\r'

/-- Begin a token: the tokens that are complete with this character, and the
state after it. -/
def begin? (c : Char) : Option (List Token × Scan) :=
  if isBlank c then some ([], .between)
  else
    match c with
    | '[' => some ([.openArray], .between)
    | ']' => some ([.closeArray], .between)
    | '\x7b' => some ([.openObject], .between)
    | '\x7d' => some ([.closeObject], .between)
    | ':' => some ([.colon], .between)
    | ',' => some ([.comma], .between)
    | '"' => some ([], .string [])
    | 'n' => some ([], .word "ull".toList .null)
    | 't' => some ([], .word "rue".toList (.bool true))
    | 'f' => some ([], .word "alse".toList (.bool false))
    | '-' => some ([], .number ['-'] .sign)
    | '0' => some ([], .number ['0'] .zero)
    | c => if c.isDigit then some ([], .number [c] .digits) else none

/-- Read one character: the tokens that it completes, and the state after it. -/
def Scan.step (s : Scan) (c : Char) : Option (List Token × Scan) :=
  match s with
  | .between => begin? c
  | .word [] token => (begin? c).map fun r => (token :: r.1, r.2)
  | .word (d :: rest) token =>
    if c = d then
      some (if rest.isEmpty then ([token], .between) else ([], .word rest token))
    else none
  | .number read part =>
    match part.extend? c with
    | some part => some ([], .number (c :: read) part)
    | none =>
      if part.complete then
        (begin? c).map fun r => (.number read.reverse :: r.1, r.2)
      else none
  | .string read =>
    if c = '"' then some ([.string read.reverse], .between)
    else if c = '\\' then some ([], .escape (c :: read))
    else if c < ' ' then none
    else some ([], .string (c :: read))
  | .escape read =>
    if c = 'u' then some ([], .hex (c :: read) 4)
    else if (shortEscape? c).isSome then some ([], .string (c :: read))
    else none
  | .hex read missing =>
    if (hexValue? c).isSome then
      some ([], if missing ≤ 1 then .string (c :: read) else .hex (c :: read) (missing - 1))
    else none

/-- The tokens that the end of the text completes. -/
def Scan.finish : Scan → Option (List Token)
  | .between => some []
  | .number read part => if part.complete then some [.number read.reverse] else none
  | _ => none

/-- The tokens of a text that is read from some state on. -/
def Scan.run (s : Scan) : List Char → Option (List Token)
  | [] => s.finish
  | c :: rest =>
    match s.step c with
    | none => none
    | some ([], s) => s.run rest
    | some (found, s) => (s.run rest).map (found ++ ·)

/-- The tokens of a text. -/
def tokens? (text : List Char) : Option (List Token) := Scan.between.run text

end Json

end SharedPlan

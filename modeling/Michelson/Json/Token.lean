import Michelson.Json.Value

namespace Michelson.Json

inductive Token where
  | openArray | closeArray | openObject | closeObject | comma | colon
  | string (text : JsonText)
  /-- A null, a truth value or a number. -/
  | scalar (value : Json)

namespace Token

def isDigits (cs : List Char) : Bool :=
  !cs.isEmpty && cs.all Char.isDigit

def isExponent : List Char → Bool
  | [] => true
  | e :: rest =>
    (e == 'e' || e == 'E') &&
      match rest with
      | '+' :: digits | '-' :: digits => isDigits digits
      | digits => isDigits digits

def isDecimalTail : List Char → Bool
  | '.' :: rest => isDigits (rest.takeWhile Char.isDigit) && isExponent (rest.dropWhile Char.isDigit)
  | rest => isExponent rest

def digitsValue (digits : List Char) : Nat :=
  digits.foldl (fun n d => 10 * n + (d.toNat - '0'.toNat)) 0

/-- A number token. The digits before a point or exponent start with zero only if that is the only one. -/
def number? (cs : List Char) : Option Json :=
  let negative := cs.head? = some '-'
  let unsigned := if negative then cs.tail else cs
  let digits := unsigned.takeWhile Char.isDigit
  let tail := unsigned.dropWhile Char.isDigit
  if !isDigits digits || (digits.head? = some '0' && digits.length ≠ 1) || !isDecimalTail tail then
    none
  else if tail.isEmpty && !(negative && digitsValue digits = 0) then
    some (.integer (if negative then -digitsValue digits else digitsValue digits))
  else some (.decimal (.ofList cs))

def word? (cs : List Char) : Option Json :=
  match String.ofList cs with
  | "null" => some .null
  | "true" => some (.bool true)
  | "false" => some (.bool false)
  | _ => none

def isNumberChar (c : Char) : Bool :=
  c.isDigit || c == '-' || c == '+' || c == '.' || c == 'e' || c == 'E'

def hexDigit? (c : Char) : Option Nat :=
  if c.isDigit then some (c.toNat - '0'.toNat)
  else if 'a' ≤ c ∧ c ≤ 'f' then some (c.toNat - 'a'.toNat + 10)
  else if 'A' ≤ c ∧ c ≤ 'F' then some (c.toNat - 'A'.toNat + 10)
  else none

/-- The part of a string that has been read. -/
structure Spelling where
  /-- The characters, last first. -/
  chars : List Char := []
  /-- The first half of a surrogate pair, if it has just been read. -/
  pending : Option Nat := none
  /-- Whether every half of a pair has met the other. -/
  isText : Bool := true

namespace Spelling

def pushChar (s : Spelling) (c : Char) : Spelling :=
  { chars := c :: s.chars, pending := none, isText := s.isText && s.pending.isNone }

def pairChar (high low : Nat) : Char :=
  .ofNat (0x10000 + (high - 0xd800) * 0x400 + (low - 0xdc00))

def pushUnit (s : Spelling) (u : Nat) : Spelling :=
  if 0xd800 ≤ u ∧ u ≤ 0xdbff then
    { s with pending := some u, isText := s.isText && s.pending.isNone }
  else if 0xdc00 ≤ u ∧ u ≤ 0xdfff then
    match s.pending with
    | some high => { s with chars := pairChar high u :: s.chars, pending := none }
    | none => { s with isText := false }
  else s.pushChar (.ofNat u)

def text (s : Spelling) : JsonText :=
  if s.isText && s.pending.isNone then some (.ofList s.chars.reverse) else none

end Spelling

inductive Place where
  | between
  /-- In a word, its letters last first. -/
  | word (letters : List Char)
  /-- In a number, its characters last first. -/
  | number (chars : List Char)
  | string (s : Spelling)
  /-- After a backslash. -/
  | escape (s : Spelling)
  /-- In a numeric escape, after some digits with this value. -/
  | unit (s : Spelling) (digits : Nat) (value : Nat)

/-- The tokens read, last first, and the place. -/
structure Scan where
  tokens : List Token := []
  place : Place := .between

namespace Scan

def start (tokens : List Token) (c : Char) : Option Scan :=
  match c with
  | ' ' | '\t' | '\n' | '\r' => some { tokens }
  | '[' => some { tokens := .openArray :: tokens }
  | ']' => some { tokens := .closeArray :: tokens }
  | '\x7b' => some { tokens := .openObject :: tokens }
  | '\x7d' => some { tokens := .closeObject :: tokens }
  | ',' => some { tokens := .comma :: tokens }
  | ':' => some { tokens := .colon :: tokens }
  | '"' => some { tokens, place := .string {} }
  | c =>
    if c.isDigit || c == '-' then some { tokens, place := .number [c] }
    else if c.isAlpha then some { tokens, place := .word [c] }
    else none

def finish (s : Scan) : Option (List Token) :=
  match s.place with
  | .between => some s.tokens
  | .word letters => (word? letters.reverse).map fun j => .scalar j :: s.tokens
  | .number chars => (number? chars.reverse).map fun j => .scalar j :: s.tokens
  | .string _ | .escape _ | .unit _ _ _ => none

def escaped (tokens : List Token) (s : Spelling) (c : Char) : Option Scan :=
  let add (d : Char) := some { tokens, place := .string (s.pushChar d) }
  match c with
  | '"' | '\\' | '/' => add c
  | 'b' => add '\x08'
  | 'f' => add '\x0c'
  | 'n' => add '\n'
  | 'r' => add '\r'
  | 't' => add '\t'
  | 'u' => some { tokens, place := .unit s 0 0 }
  | _ => none

def step (s : Scan) (c : Char) : Option Scan :=
  match s.place with
  | .between => start s.tokens c
  | .word letters =>
    if c.isAlpha then some { s with place := .word (c :: letters) }
    else s.finish.bind (start · c)
  | .number chars =>
    if isNumberChar c then some { s with place := .number (c :: chars) }
    else s.finish.bind (start · c)
  | .string spelling =>
    if c = '"' then some { tokens := .string spelling.text :: s.tokens }
    else if c = '\\' then some { s with place := .escape spelling }
    else if c.toNat < 0x20 then none
    else some { s with place := .string (spelling.pushChar c) }
  | .escape spelling => escaped s.tokens spelling c
  | .unit spelling digits value =>
    (hexDigit? c).map fun d =>
      let value := 16 * value + d
      if digits = 3 then { s with place := .string (spelling.pushUnit value) }
      else { s with place := .unit spelling (digits + 1) value }

end Scan

def ofText? (text : String) : Option (List Token) := do
  let scan ← text.toList.foldlM Scan.step {}
  let tokens ← scan.finish
  return tokens.reverse

end Token

end Michelson.Json

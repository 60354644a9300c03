import Michelson.Json.Value

namespace Michelson.Json

def hex4 (n : Nat) : List Char :=
  [n / 0x1000 % 16, n / 0x100 % 16, n / 0x10 % 16, n % 16].map Nat.digitChar

def writeChar (c : Char) : List Char :=
  if c = '"' ∨ c = '\\' then ['\\', c]
  else if c.toNat < 0x20 then ['\\', 'u'] ++ hex4 c.toNat
  else [c]

/-- A string in quotation marks; one that is no text is written as half of a surrogate pair. -/
def writeText : JsonText → String
  | some s => "\"" ++ String.ofList (s.toList.flatMap writeChar) ++ "\""
  | none => "\"\\ud800\""

mutual

def toText : Json → String
  | .null => "null"
  | .bool b => if b then "true" else "false"
  | .integer n => toString n
  | .decimal token => token
  | .string text => writeText text
  | .array items => "[" ++ ",".intercalate (itemsToText items) ++ "]"
  | .object members => "\x7b" ++ ",".intercalate (membersToText members) ++ "\x7d"

def itemsToText : List Json → List String
  | [] => []
  | item :: items => item.toText :: itemsToText items

def membersToText : List (JsonText × Json) → List String
  | [] => []
  | (key, value) :: members => (writeText key ++ ":" ++ value.toText) :: membersToText members

end

end Michelson.Json

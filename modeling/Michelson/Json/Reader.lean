import Michelson.Json.Token

namespace Michelson.Json

/-- An array or object that is still open, its parts last first. -/
inductive Frame where
  | array (items : List Json)
  | object (members : List (JsonText × Json))
  /-- An object that waits for the value of a member. -/
  | member (members : List (JsonText × Json)) (key : JsonText)

inductive Expected where
  | value
  /-- A value, or the end of an array without items. -/
  | firstItem
  /-- A key, or the end of an object without members. -/
  | firstKey
  | key
  | colon
  /-- A comma or the end of what is open. -/
  | next
  /-- Nothing: the value is complete. -/
  | done (value : Json)

structure Reading where
  frames : List Frame := []
  expected : Expected := .value

namespace Reading

def place (value : Json) : List Frame → Option Reading
  | [] => some ⟨[], .done value⟩
  | .array items :: frames => some ⟨.array (value :: items) :: frames, .next⟩
  | .member members key :: frames => some ⟨.object ((key, value) :: members) :: frames, .next⟩
  | .object _ :: _ => none

def beginValue (frames : List Frame) : Token → Option Reading
  | .scalar value => place value frames
  | .string text => place (.string text) frames
  | .openArray => some ⟨.array [] :: frames, .firstItem⟩
  | .openObject => some ⟨.object [] :: frames, .firstKey⟩
  | _ => none

def beginMember : List Frame → Token → Option Reading
  | .object members :: frames, .string key => some ⟨.member members key :: frames, .colon⟩
  | _, _ => none

def close : List Frame → Token → Option Reading
  | .array items :: frames, .closeArray => place (.array items.reverse) frames
  | .object members :: frames, .closeObject => place (.object members.reverse) frames
  | _, _ => none

def step (r : Reading) (token : Token) : Option Reading :=
  match r.expected, token with
  | .value, _ => beginValue r.frames token
  | .firstItem, .closeArray => close r.frames token
  | .firstItem, _ => beginValue r.frames token
  | .firstKey, .closeObject => close r.frames token
  | .firstKey, _ | .key, _ => beginMember r.frames token
  | .colon, .colon => some { r with expected := .value }
  | .colon, _ => none
  | .next, .comma =>
    match r.frames with
    | .array _ :: _ => some { r with expected := .value }
    | .object _ :: _ => some { r with expected := .key }
    | _ => none
  | .next, _ => close r.frames token
  | .done _, _ => none

def value? (r : Reading) : Option Json :=
  match r.expected with
  | .done value => some value
  | _ => none

end Reading

def ofText? (text : String) : Option Json := do
  let tokens ← Token.ofText? text
  let reading ← tokens.foldlM Reading.step {}
  reading.value?

end Michelson.Json

import Michelson.Syntax

namespace Michelson

/-- Whether a type is put in parentheses where it is an argument of another. -/
def Ty.isCompound : Ty → Bool
  | .option _ | .or _ _ | .pair _ _ | .list _ | .set _ | .map _ _ | .bigMap _ _ | .contract _
  | .lambda _ => true
  | .record r => !r.fields.isEmpty
  | _ => false

def parenthesized (compound : Bool) (text : String) : String :=
  if compound then "(" ++ text ++ ")" else text

mutual

def Ty.render : Ty → String
  | .unit => "unit"
  | .bool => "bool"
  | .int => "int"
  | .nat => "nat"
  | .mutez => "mutez"
  | .string => "string"
  | .bytes => "bytes"
  | .address => "address"
  | .timestamp => "timestamp"
  | .operation => "operation"
  | .option t => "option " ++ parenthesized t.isCompound t.render
  | .or l r =>
    "or " ++ parenthesized l.isCompound l.render ++ " " ++ parenthesized r.isCompound r.render
  | .pair l r =>
    "pair " ++ parenthesized l.isCompound l.render ++ " " ++ parenthesized r.isCompound r.render
  | .list t => "list " ++ parenthesized t.isCompound t.render
  | .set t => "set " ++ parenthesized t.isCompound t.render
  | .map k v =>
    "map " ++ parenthesized k.isCompound k.render ++ " " ++ parenthesized v.isCompound v.render
  | .bigMap k v =>
    "big_map " ++ parenthesized k.isCompound k.render ++ " " ++ parenthesized v.isCompound v.render
  | .contract t => "contract " ++ parenthesized t.isCompound t.render
  | .lambda ⟨arg, ret, _, _⟩ =>
    "lambda " ++ parenthesized arg.isCompound arg.render ++ " " ++
      parenthesized ret.isCompound ret.render
  | .record ⟨_, fields⟩ => renderFields fields
  | .universal => "universal"
  | .var name => "'" ++ name

def renderFields : List Field → String
  | [] => "unit"
  | [⟨name, t⟩] => parenthesized t.isCompound t.render ++ " %" ++ name
  | ⟨name, t⟩ :: rest =>
    "pair (" ++ parenthesized t.isCompound t.render ++ " %" ++ name ++ ") (" ++
      renderFields rest ++ ")"

end

def renderTypes (ts : List Ty) : String :=
  " : ".intercalate (ts.map Ty.render)

def renderStack : List Ty → String
  | [] => "[]"
  | ts => "[ " ++ renderTypes ts ++ " ]"

end Michelson

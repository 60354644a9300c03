import Michelson.Config
import Michelson.Json.Integer
import Michelson.Json.Reader
import Michelson.Syntax

namespace Michelson

namespace Json

/-- How deep arrays and objects may be nested. Members of an object that nothing asks for are skipped unread and do not
count. -/
def maxNesting : Nat :=
  127

def ofString (s : String) : Json :=
  .string (some s)

def ofNat (n : Nat) : Json :=
  .integer n

def alternative (name : String) (contents : Json) : Json :=
  .object [(some name, contents)]

def ofFields (fields : List (String × Json)) : Json :=
  .object (fields.map fun (name, value) => (some name, value))

def string? : Json → Option String
  | .string text => text
  | _ => none

def bool? : Json → Option Bool
  | .bool b => some b
  | _ => none

/-- The value of the only member with a name. -/
def member? (members : List (JsonText × Json)) (name : String) : Option Json :=
  match members.filter fun (key, _) => key = some name with
  | [(_, value)] => some value
  | _ => none

def fields? (names : List String) : Json → Option (List Json)
  | .array items => if items.length = names.length then some items else none
  | .object members =>
    if members.all fun (key, _) => key.isSome then names.mapM (member? members) else none
  | _ => none

def items? {α : Type} (read : Nat → Json → Option α) : Nat → Json → Option (List α)
  | room + 1, .array items => items.mapM (read room)
  | _, _ => none

def read? {α : Type} (form : Nat → Json → Option α) (text : String) : Option α :=
  (ofText? text).bind (form maxNesting)

end Json

open Json (ofString alternative ofFields string? bool? fields? items?)

def Opcode.toJson (op : Opcode) : Json :=
  ofString op.mnemonic

def Json.name? : Nat → Json → Option String
  | _, .string name => name
  | _ + 1, .object [(name, .null)] => name
  | _, _ => none

def Opcode.ofJson? (room : Nat) (j : Json) : Option Opcode :=
  (j.name? room).bind ofMnemonic?

def Literal.toJson : Literal → Json
  | .int n => alternative "Int" (.ofInt n)
  | .string s => alternative "String" (ofString s)
  | .bool b => alternative "Bool" (.bool b)
  | .bytes bs => alternative "Bytes" (.array (bs.map fun b => .ofNat b.toNat))
  | .unit => ofString "Unit"

def Json.byte? (_ : Nat) (j : Json) : Option UInt8 :=
  (j.below? 256).map UInt8.ofNat

def Literal.ofJson? : Nat → Json → Option Literal
  | _, .string (some "Unit") => some .unit
  | room + 1, .object [(some name, contents)] =>
    match name, contents with
    | "Int", _ => (contents.int? room).map .int
    | "String", _ => contents.string?.map .string
    | "Bool", _ => contents.bool?.map .bool
    | "Bytes", _ => (items? Json.byte? room contents).map .bytes
    | "Unit", .null => some .unit
    | _, _ => none
  | _, _ => none

def Ty.named? : String → Option Ty
  | "Unit" => some .unit
  | "Bool" => some .bool
  | "Int" => some .int
  | "Nat" => some .nat
  | "Mutez" => some .mutez
  | "String" => some .string
  | "Bytes" => some .bytes
  | "Address" => some .address
  | "Datetime" => some .timestamp
  | "Operation" => some .operation
  | "Universal" => some .universal
  | _ => none

mutual

def Ty.toJson : Ty → Json
  | .unit => ofString "Unit"
  | .bool => ofString "Bool"
  | .int => ofString "Int"
  | .nat => ofString "Nat"
  | .mutez => ofString "Mutez"
  | .string => ofString "String"
  | .bytes => ofString "Bytes"
  | .address => ofString "Address"
  | .timestamp => ofString "Datetime"
  | .operation => ofString "Operation"
  | .option t => alternative "Option" t.toJson
  | .or l r => alternative "Or" (.array [l.toJson, r.toJson])
  | .pair l r => alternative "Pair" (.array [l.toJson, r.toJson])
  | .list t => alternative "List" t.toJson
  | .set t => alternative "Set" t.toJson
  | .map k v => alternative "Dict" (.array [k.toJson, v.toJson])
  | .bigMap k v => alternative "BigMap" (.array [k.toJson, v.toJson])
  | .contract t => alternative "Contract" t.toJson
  | .lambda f => alternative "FunctionPrototype" f.toJson
  | .record r => alternative "Record" r.toJson
  | .universal => ofString "Universal"
  | .var name => alternative "TypeVar" (ofString name)

def Lambda.toJson : Lambda → Json
  | ⟨arg, ret, body, applied⟩ =>
    ofFields [("arg", arg.toJson), ("ret", ret.toJson), ("body", .array (codeToJson body)),
      ("applied_args", .array (typesToJson applied))]

def Record.toJson : Record → Json
  | ⟨name, fields⟩ => ofFields [("name", ofString name), ("fields", .array (fieldsToJson fields))]

def Field.toJson : Field → Json
  | ⟨name, type⟩ => .array [ofString name, type.toJson]

def Arg.toJson : Arg → Json
  | .code body => alternative "Seq" (.array (codeToJson body))
  | .type t => alternative "Type" t.toJson
  | .literal l => alternative "Literal" l.toJson

def Instr.toJson : Instr → Json
  | ⟨op, args⟩ => ofFields [("opcode", op.toJson), ("args", .array (argsToJson args))]

def typesToJson : List Ty → List Json
  | [] => []
  | t :: ts => t.toJson :: typesToJson ts

def fieldsToJson : List Field → List Json
  | [] => []
  | f :: fs => f.toJson :: fieldsToJson fs

def argsToJson : List Arg → List Json
  | [] => []
  | a :: as => a.toJson :: argsToJson as

def codeToJson : List Instr → List Json
  | [] => []
  | i :: is => i.toJson :: codeToJson is

end

mutual

def Ty.ofJson? : Nat → Json → Option Ty
  | _, .string (some name) => Ty.named? name
  | room + 1, .object [(some name, contents)] =>
    match name with
    | "Option" => (Ty.ofJson? room contents).map .option
    | "Or" => (Ty.pairOfJson? room contents).map fun (l, r) => .or l r
    | "Pair" => (Ty.pairOfJson? room contents).map fun (l, r) => .pair l r
    | "List" => (Ty.ofJson? room contents).map .list
    | "Set" => (Ty.ofJson? room contents).map .set
    | "Dict" => (Ty.pairOfJson? room contents).map fun (k, v) => .map k v
    | "BigMap" => (Ty.pairOfJson? room contents).map fun (k, v) => .bigMap k v
    | "Contract" => (Ty.ofJson? room contents).map .contract
    | "FunctionPrototype" => (Lambda.ofJson? room contents).map .lambda
    | "Record" => (Record.ofJson? room contents).map .record
    | "TypeVar" => contents.string?.map .var
    | name =>
      match contents with
      | .null => Ty.named? name
      | _ => none
  | _, _ => none

def Ty.pairOfJson? : Nat → Json → Option (Ty × Ty)
  | room + 1, .array [l, r] => do
    let l ← Ty.ofJson? room l
    let r ← Ty.ofJson? room r
    return (l, r)
  | _, _ => none

def Lambda.ofJson? : Nat → Json → Option Lambda
  | room + 1, j =>
    match j.fields? ["arg", "ret", "body", "applied_args"] with
    | some [arg, ret, body, applied] => do
      let arg ← Ty.ofJson? room arg
      let ret ← Ty.ofJson? room ret
      let body ← codeOfJson? room body
      let applied ← typesOfJson? room applied
      return ⟨arg, ret, body, applied⟩
    | _ => none
  | 0, _ => none

def Record.ofJson? : Nat → Json → Option Record
  | room + 1, j =>
    match j.fields? ["name", "fields"] with
    | some [name, fields] => do
      let name ← name.string?
      let fields ← fieldsOfJson? room fields
      return ⟨name, fields⟩
    | _ => none
  | 0, _ => none

def Field.ofJson? : Nat → Json → Option Field
  | room + 1, .array [name, type] => do
    let name ← name.string?
    let type ← Ty.ofJson? room type
    return ⟨name, type⟩
  | _, _ => none

def Arg.ofJson? : Nat → Json → Option Arg
  | room + 1, .object [(some name, contents)] =>
    match name with
    | "Seq" => (codeOfJson? room contents).map .code
    | "Type" => (Ty.ofJson? room contents).map .type
    | "Literal" => (Literal.ofJson? room contents).map .literal
    | _ => none
  | _, _ => none

def Instr.ofJson? : Nat → Json → Option Instr
  | room + 1, j =>
    match j.fields? ["opcode", "args"] with
    | some [op, args] => do
      let op ← Opcode.ofJson? room op
      let args ← argsOfJson? room args
      return ⟨op, args⟩
    | _ => none
  | 0, _ => none

def typesOfJson? : Nat → Json → Option (List Ty)
  | room + 1, .array items => items.mapM (Ty.ofJson? room)
  | _, _ => none

def fieldsOfJson? : Nat → Json → Option (List Field)
  | room + 1, .array items => items.mapM (Field.ofJson? room)
  | _, _ => none

def argsOfJson? : Nat → Json → Option (List Arg)
  | room + 1, .array items => items.mapM (Arg.ofJson? room)
  | _, _ => none

def codeOfJson? : Nat → Json → Option (List Instr)
  | room + 1, .array items => items.mapM (Instr.ofJson? room)
  | _, _ => none

end

def Contract.toJson (c : Contract) : Json :=
  ofFields [("parameter", c.parameter.toJson), ("storage", c.storage.toJson),
    ("code", .array (codeToJson c.code))]

def Contract.ofJson? : Nat → Json → Option Contract
  | room + 1, j =>
    match j.fields? ["parameter", "storage", "code"] with
    | some [parameter, storage, code] => do
      let parameter ← Ty.ofJson? room parameter
      let storage ← Ty.ofJson? room storage
      let code ← codeOfJson? room code
      return ⟨parameter, storage, code⟩
    | _ => none
  | 0, _ => none

def Config.toJson (c : Config) : Json :=
  ofFields [("max_nesting_depth", .ofNat c.maxNestingDepth)]

/-- Settings that are not given have their default values. -/
def Config.ofJson? : Nat → Json → Option Config
  | _ + 1, .array [] => some {}
  | _ + 1, .array [n] => (n.below? (Size.max + 1)).map Config.mk
  | _ + 1, .object members =>
    if members.all fun (key, _) => key.isSome ∧ key ≠ some "max_nesting_depth" then some {}
    else
      ((Json.object members).fields? ["max_nesting_depth"]).bind fun
        | [n] => (n.below? (Size.max + 1)).map Config.mk
        | _ => none
  | _, _ => none

def Config.ofText (text : String) : Except Config.Invalid Config :=
  match Json.read? Config.ofJson? text with
  | some config => config.validate
  | none => .error .notJson

end Michelson

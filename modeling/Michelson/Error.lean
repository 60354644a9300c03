import Michelson.Stack
import Michelson.Text.Quoted

namespace Michelson

/-- What is wrong with an instruction, apart from the types it meets. -/
inductive Malformed where
  /-- It has `actual` arguments and needs `least` to `most`. -/
  | arity (least most actual : Nat)
  | notType (index : Nat)
  | notCode (index : Nat)
  | notNat (index : Nat)
  | notLiteral (index : Nat)
  /-- A conditional does not have two arguments. -/
  | notTwoBranches
  | dupZero
  | pairBelowTwo (n : Nat)
  /-- A comb has no component at the index. -/
  | indexOutOfRange (n : Nat) (comb : Ty)
  /-- Its code would be nested deeper than the limit allows. -/
  | tooDeep (limit : Nat)
  deriving DecidableEq

namespace Malformed

def reason : Malformed → String
  | arity least most actual =>
    if least = most then
      "expected " ++ toString least ++ " arguments, got " ++ toString actual
    else
      "expected " ++ toString least ++ " to " ++ toString most ++ " arguments, got " ++
        toString actual
  | notType index => "argument " ++ toString index ++ " must be a type"
  | notCode index => "argument " ++ toString index ++ " must be a code sequence"
  | notNat index => "argument " ++ toString index ++ " must be a non-negative integer"
  | notLiteral index => "argument " ++ toString index ++ " must be a literal"
  | notTwoBranches => "expected two code sequences"
  | dupZero => "DUP 0 is forbidden"
  | pairBelowTwo n => "PAIR " ++ toString n ++ " is forbidden, need at least 2"
  | indexOutOfRange n comb => "index " ++ toString n ++ " is out of range for " ++ comb.render
  | tooDeep limit => "nesting depth exceeds the limit of " ++ toString limit

end Malformed

/-- Why code is refused. Types listed in an error are top first. -/
inductive TypeError where
  /-- Too few slots, or a body that ends with another number of slots than it must. -/
  | stackLength (op : Option Opcode) (expected actual : Nat)
  /-- The topmost slots have other types than expected. -/
  | stackTop (op : Opcode) (expected actual : List Ty)
  /-- No overload of the instruction takes these operands. -/
  | operand (op : Opcode) (accepted actual : List Ty)
  /-- A type is not of the required form. -/
  | wrongForm (op : Opcode) (expected actual : Ty)
  | malformed (op : Opcode) (why : Malformed)
  /-- The branches of a conditional end with different stacks. -/
  | branches (op : Opcode) (onTrue onFalse : Stack)
  /-- The argument or the result of a lambda has another type than declared. -/
  | lambdaType (op : Opcode) (expected actual : Ty)
  /-- A contract does not end with its operations and its storage. -/
  | contractResult (actual expected : Stack)
  | mapKey (op : Opcode) (key map : Ty)
  | mapValue (op : Opcode) (value map : Ty)
  | setElement (op : Opcode) (element set : Ty)
  /-- A literal is not one of the type it is pushed as. -/
  | literalType (type : Ty) (literal : Literal)
  deriving DecidableEq

inductive ErrorKind where
  | stackLength | stackTop | operand | wrongForm | malformed | branches | lambdaType
  | contractResult | mapKey | mapValue | setElement | literalType
  deriving DecidableEq, Repr

def ErrorKind.name : ErrorKind → String
  | stackLength => "StackLengthException"
  | stackTop => "StackTopTypeException"
  | operand => "OperandException"
  | wrongForm => "TypeException"
  | malformed => "InvalidMichelsonException"
  | branches => "ConditionBranchesTypeMismatch"
  | lambdaType => "LambdaArgumentTypeException"
  | contractResult => "ContractReturnTypeException"
  | mapKey => "MapKeyTypeException"
  | mapValue => "MapValueTypeException"
  | setElement => "SetElementTypeException"
  | literalType => "PushTypeException"

def Literal.render : Literal → String
  | .int n => "Int(" ++ toString n ++ ")"
  | .string s => "String(" ++ Text.quoted s ++ ")"
  | .bool b => "Bool(" ++ toString b ++ ")"
  | .bytes bs => "Bytes([" ++ ", ".intercalate (bs.map fun b => toString b.toNat) ++ "])"
  | .unit => "Unit"

namespace TypeError

def kind : TypeError → ErrorKind
  | stackLength .. => .stackLength
  | stackTop .. => .stackTop
  | operand .. => .operand
  | wrongForm .. => .wrongForm
  | malformed .. => .malformed
  | branches .. => .branches
  | lambdaType .. => .lambdaType
  | contractResult .. => .contractResult
  | mapKey .. => .mapKey
  | mapValue .. => .mapValue
  | setElement .. => .setElement
  | literalType .. => .literalType

def message : TypeError → String
  | stackLength op expected actual =>
    let place := match op with
      | some op => " in " ++ op.mnemonic
      | none => ""
    "stack length mismatch" ++ place ++ ": expected " ++ toString expected ++ ", got " ++
      toString actual
  | stackTop op expected actual =>
    op.mnemonic ++ ": expected stack top [ " ++ renderTypes expected ++ " ], got [ " ++
      renderTypes actual ++ " ]"
  | operand op accepted actual =>
    op.mnemonic ++ ": operands [ " ++ renderTypes actual ++ " ] are not accepted, expected " ++
      " | ".intercalate (accepted.map Ty.render)
  | wrongForm op expected actual =>
    op.mnemonic ++ ": expected a value of type " ++ expected.render ++ ", got " ++ actual.render
  | malformed op why => "invalid " ++ op.mnemonic ++ ": " ++ why.reason
  | branches op onTrue onFalse =>
    op.mnemonic ++ ": branches end with different stacks: " ++ onTrue.render ++ " and " ++
      onFalse.render
  | lambdaType op expected actual =>
    op.mnemonic ++ ": expected lambda type " ++ expected.render ++ ", got " ++ actual.render
  | contractResult actual expected =>
    "contract must end with " ++ expected.render ++ ", got " ++ actual.render
  | mapKey op key map =>
    op.mnemonic ++ ": key of type " ++ key.render ++ " does not match " ++ map.render
  | mapValue op value map =>
    op.mnemonic ++ ": value of type " ++ value.render ++ " does not match " ++ map.render
  | setElement op element set =>
    op.mnemonic ++ ": element of type " ++ element.render ++ " does not match " ++ set.render
  | literalType type literal =>
    "PUSH: literal " ++ literal.render ++ " is not a value of type " ++ type.render

/-- A stack that is too short for an operation, whoever asked for it. -/
def ofTooShort (e : Stack.TooShort) : TypeError :=
  stackLength none e.expected e.actual

end TypeError

end Michelson

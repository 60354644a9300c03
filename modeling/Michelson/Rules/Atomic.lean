import Michelson.Edit

namespace Michelson

open Edit

namespace Number

/-- A natural number for two natural numbers, an integer for other numbers. -/
def widen : Ty → Ty → Option Ty
  | .nat, .nat => some .nat
  | .nat, .int | .int, .nat | .int, .int => some .int
  | _, _ => none

def integer : Ty → Option Ty
  | .int | .nat => some .int
  | _ => none

def add : Edit Unit :=
  binary .add [.int, .nat, .mutez] widen

def mul : Edit Unit :=
  binary .mul [.int, .nat, .mutez] widen

/-- There is no difference of natural numbers: it is always an integer. -/
def sub : Edit Unit :=
  binary .sub [.int, .nat, .timestamp] fun x y => (widen x y).map fun _ => .int

def ediv : Edit Unit :=
  binary .ediv [.int, .nat, .mutez] fun x y =>
    (widen x y).map fun quotient => .option (.pair quotient .nat)

protected def or : Edit Unit :=
  both .or [.nat, .bool] .nat .nat

protected def xor : Edit Unit :=
  both .xor [.nat, .bool] .nat .nat

/-- An integer may be masked by a natural number. -/
protected def and : Edit Unit :=
  binary .and [.int, .nat, .bool] fun
    | .nat, .nat | .int, .nat => some .nat
    | _, _ => none

protected def not : Edit Unit :=
  unary .not [.int, .nat, .bool] integer

def neg : Edit Unit :=
  unary .neg [.int, .nat] integer

def abs : Edit Unit :=
  convert .abs .int .nat

def isNat : Edit Unit :=
  convert .isnat .int (.option .nat)

def toInt : Edit Unit :=
  convert .int .nat .int

def sign (op : Opcode) : Edit Unit :=
  convert op .int .bool

protected def compare : Edit Unit :=
  binary .compare [.int, .nat] fun
    | .int, .int | .nat, .nat => some .int
    | _, _ => none

end Number

namespace Amount

def add : Edit Unit :=
  both .add [.mutez] .mutez .mutez

/-- There is no amount below zero. -/
def sub : Edit Unit :=
  both .subMutez [.mutez] .mutez (.option .mutez)

protected def compare : Edit Unit :=
  both .compare [.mutez] .mutez .int

def mul : Edit Unit :=
  binary .mul [.mutez, .nat] fun
    | .mutez, .nat | .nat, .mutez => some .mutez
    | _, _ => none

def ediv : Edit Unit :=
  binary .ediv [.mutez, .nat] fun
    | .mutez, .mutez => some (.option (.pair .nat .mutez))
    | .mutez, .nat => some (.option (.pair .mutez .mutez))
    | _, _ => none

end Amount

namespace Timestamp

def sub : Edit Unit :=
  both .sub [.timestamp] .timestamp .int

protected def compare : Edit Unit :=
  both .compare [.timestamp] .timestamp .int

end Timestamp

namespace Truth

def connect (op : Opcode) : Edit Unit :=
  both op [.bool, .nat] .bool .bool

protected def not : Edit Unit :=
  convert .not .bool .bool

end Truth

namespace Text

def pack : Edit Unit := do
  require .pack 1
  setSlot 0 .bytes

def unpack (t : Ty) : Edit Unit :=
  convert .unpack .bytes (.option t)

protected def compare (t : Ty) : Edit Unit :=
  both .compare [t] t .int

def concat (t : Ty) : Edit Unit :=
  both .concat [t] t t

def slice (t : Ty) : Edit Unit := do
  require .slice 3
  let found ← topTypes 3
  if found = [.nat, .nat, t] then
    drop 3
    push (.option t)
  else refuse (.stackTop .slice [.nat, .nat, t] found)

def size (t : Ty) : Edit Unit :=
  convert .size t .nat

def hash (op : Opcode) : Edit Unit :=
  convert op .bytes .bytes

end Text

namespace Chain

def address : Edit Unit :=
  unary .address [.contract (.var "a")] fun
    | .contract _ => some .address
    | _ => none

def contract (parameter : Ty) : Edit Unit :=
  convert .contract .address (.option (.contract parameter))

def transferTokens : Edit Unit := do
  require .transferTokens 3
  let x ← slot 0
  let suits := match ← slot 1, ← slot 2 with
    | .mutez, .contract parameter => x.equals parameter
    | _, _ => false
  if suits then
    drop 3
    push .operation
  else
    refuse (.stackTop .transferTokens [.var "a", .mutez, .contract (.var "a")] (← topTypes 3))

protected def compare : Edit Unit :=
  both .compare [.address] .address .int

end Chain

end Michelson

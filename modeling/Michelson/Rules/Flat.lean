import Michelson.Operand
import Michelson.Rules.Atomic
import Michelson.Rules.Compound
import Michelson.Rules.Shuffle

namespace Michelson

open Operand (typeAt literalAt natAt nat?)

namespace Edit

namespace Overloaded

def add : Edit Unit := do
  match ← visible with
  | .mutez :: .mutez :: _ => Amount.add
  | _ => Number.add

def sub : Edit Unit := do
  match ← visible with
  | .timestamp :: .timestamp :: _ => Timestamp.sub
  | _ => Number.sub

def mul : Edit Unit := do
  match ← visible with
  | _ :: .mutez :: _ | .mutez :: _ :: _ => Amount.mul
  | _ => Number.mul

def ediv : Edit Unit := do
  match ← visible with
  | .mutez :: _ => Amount.ediv
  | _ => Number.ediv

protected def or : Edit Unit := do
  match ← visible with
  | .bool :: .bool :: _ => Truth.connect .or
  | _ => Number.or

protected def and : Edit Unit := do
  match ← visible with
  | .bool :: .bool :: _ => Truth.connect .and
  | _ => Number.and

protected def xor : Edit Unit := do
  match ← visible with
  | .bool :: .bool :: _ => Truth.connect .xor
  | _ => Number.xor

protected def not : Edit Unit := do
  match ← visible with
  | .bool :: _ => Truth.not
  | _ => Number.not

protected def compare : Edit Unit := do
  match ← visible with
  | .int :: .int :: _ | .nat :: .nat :: _ => Number.compare
  | .string :: .string :: _ => Text.compare .string
  | .bytes :: .bytes :: _ => Text.compare .bytes
  | .address :: .address :: _ => Chain.compare
  | .mutez :: .mutez :: _ => Amount.compare
  | .option _ :: .option _ :: _ => Options.compare
  | .timestamp :: .timestamp :: _ => Timestamp.compare
  | _ :: _ :: _ =>
    refuse (.operand .compare
      [.int, .nat, .string, .bytes, .address, .mutez, .option (.var "a"), .timestamp]
      (← topTypes 2))
  | _ => require .compare 2

def concat : Edit Unit := do
  match ← visible with
  | .string :: .string :: _ => Text.concat .string
  | .bytes :: .bytes :: _ => Text.concat .bytes
  | _ :: _ :: _ => refuse (.operand .concat [.string, .bytes] (← topTypes 2))
  | _ => require .concat 2

def slice : Edit Unit := do
  match ← visible with
  | .nat :: .nat :: .string :: _ => Text.slice .string
  | .nat :: .nat :: .bytes :: _ => Text.slice .bytes
  | _ :: _ :: _ :: _ => refuse (.operand .slice [.string, .bytes] (← topTypes 3))
  | _ => require .slice 3

def size : Edit Unit := do
  match ← visible with
  | .string :: _ => Text.size .string
  | .bytes :: _ => Text.size .bytes
  | _ => Collection.size

def mem : Edit Unit := do
  match ← visible with
  | _ :: .set _ :: _ => Collection.memSet
  | _ => Collection.memMap

def update : Edit Unit := do
  match ← visible with
  | _ :: _ :: .set _ :: _ => Collection.updateSet
  | _ => Collection.updateMap

end Overloaded

/-- The work of an instruction without nested code. It reads its arguments before it looks at the stack. -/
def flat (op : Opcode) (args : List Operand) : Edit Unit :=
  match op with
  | .lambda | .dip | .ifBool | .ifNone | .ifLeft | .ifCons | .loop | .iter =>
    lift (.stop (.nestedCode op))
  | .push => do
    let t ← lift (typeAt op args 0)
    let l ← lift (literalAt op args 1)
    Shuffle.pushLiteral t l
  | .drop => do
    let n ← lift (nat? op args)
    Shuffle.drop (n.getD 1)
  | .dup => do
    let n ← lift (nat? op args)
    Shuffle.dup (n.getD 1)
  | .dig => do
    let n ← lift (natAt op args 0)
    Shuffle.dig n
  | .dug => do
    let n ← lift (natAt op args 0)
    Shuffle.dug n
  | .swap => Shuffle.swap
  | .exec => Function.exec
  | .apply => Function.apply
  | .failwith => Shuffle.failWith
  | .comment => return
  | .eq | .neq | .lt | .gt | .le | .ge => Number.sign op
  | .some => Options.some
  | .none => do
    let t ← lift (typeAt op args 0)
    push (.option t)
  | .left => do
    let t ← lift (typeAt op args 0)
    Unions.left t
  | .right => do
    let t ← lift (typeAt op args 0)
    Unions.right t
  | .car => Pairs.car
  | .cdr => Pairs.cdr
  | .unpair => Pairs.unpair
  | .pair => do
    match ← lift (nat? op args) with
    | some n => Pairs.pairN n
    | none => Pairs.pair
  | .nil => do
    let t ← lift (typeAt op args 0)
    push (.list t)
  | .cons => Collection.cons
  | .emptySet => do
    let t ← lift (typeAt op args 0)
    push (.set t)
  | .emptyMap => do
    let k ← lift (typeAt op args 0)
    let v ← lift (typeAt op args 1)
    push (.map k v)
  | .emptyBigMap => do
    let k ← lift (typeAt op args 0)
    let v ← lift (typeAt op args 1)
    push (.bigMap k v)
  | .size => Overloaded.size
  | .mem => Overloaded.mem
  | .get => do
    match ← lift (nat? op args) with
    | some n => Pairs.getN n
    | none => Collection.getMap
  | .update => do
    match ← lift (nat? op args) with
    | some n => Pairs.updateN n
    | none => Overloaded.update
  | .pack => Text.pack
  | .unpack => do
    let t ← lift (typeAt op args 0)
    Text.unpack t
  | .concat => Overloaded.concat
  | .slice => Overloaded.slice
  | .blake2b | .keccak | .sha256 | .sha512 | .sha3 => Text.hash op
  | .compare => Overloaded.compare
  | .add => Overloaded.add
  | .sub => Overloaded.sub
  | .subMutez => Amount.sub
  | .mul => Overloaded.mul
  | .ediv => Overloaded.ediv
  | .neg => Number.neg
  | .abs => Number.abs
  | .isnat => Number.isNat
  | .int => Number.toInt
  | .or => Overloaded.or
  | .and => Overloaded.and
  | .xor => Overloaded.xor
  | .not => Overloaded.not
  | .unit => push .unit
  | .now => push .timestamp
  | .selfAddress | .sender | .source => push .address
  | .amount | .balance => push .mutez
  | .address => Chain.address
  | .contract => do
    let t ← lift (typeAt op args 0)
    Chain.contract t
  | .transferTokens => Chain.transferTokens

end Edit

end Michelson

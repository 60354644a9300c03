import Michelson.Proofs.Code

namespace Michelson

def slotAt {ε : Type} (slots : List Ty) (depth : Nat) : Outcome ε Ty :=
  match slots[depth]? with
  | some t => .ok t
  | none => .stop (.missingSlot depth slots.length)

theorem slotAt_of_lt {ε : Type} {slots : List Ty} {depth : Nat} (h : depth < slots.length) :
    (slotAt slots depth : Outcome ε Ty) = .ok slots[depth] := by
  rw [slotAt, List.getElem?_eq_getElem h]

theorem slotAt_of_ge {ε : Type} {slots : List Ty} {depth : Nat} (h : slots.length ≤ depth) :
    (slotAt slots depth : Outcome ε Ty) = .stop (.missingSlot depth slots.length) := by
  rw [slotAt, List.getElem?_eq_none h]

def Conditional.isUnreached : List Ty → Bool
  | .universal :: _ => true
  | _ => false

/-- What becomes of the visible slots. -/
abbrev Rule := List Ty → Outcome TypeError (List Ty)

namespace Rule

variable (op : Opcode) {n : Nat} {slots : List Ty}

def require (n : Nat) (slots : List Ty) : Outcome TypeError Unit :=
  if slots.length < n then .refuse (.stackLength (some op) n slots.length) else .ok ()

theorem require_of_le (h : n ≤ slots.length) : require op n slots = .ok () :=
  if_neg (Nat.not_lt.mpr h)

theorem require_of_lt (h : slots.length < n) :
    require op n slots = .refuse (.stackLength (some op) n slots.length) :=
  if_pos h

def onTop (f : Ty → Rule) : Rule
  | [] => .refuse (.stackLength (some op) 1 0)
  | x :: rest => f x rest

theorem onTop_cons (f : Ty → Rule) (x : Ty) (rest : List Ty) :
    onTop op f (x :: rest) = f x rest := rfl

theorem onTop_nil (f : Ty → Rule) : onTop op f [] = .refuse (.stackLength (some op) 1 0) := rfl

end Rule

abbrev Verdict := Outcome TypeError (List Ty)

/-- An instruction without nested code: how many slots it asks for, how many it takes off, and what it puts in their
place. The two numbers differ only where no more slots can be counted. -/
structure Action where
  needed : Nat
  taken : Nat
  result : List Ty → Verdict

namespace Action

def rule (op : Opcode) (a : Action) : Rule := fun slots => do
  Rule.require op a.needed slots
  (a.result (slots.take a.taken)).map (· ++ slots.drop a.taken)

def put (v : Verdict) : Action :=
  ⟨0, 0, fun _ => v⟩

def one (f : Ty → Verdict) : Action :=
  ⟨1, 1, fun
    | [x] => f x
    | xs => .stop (.missingSlot 0 xs.length)⟩

def two (f : Ty → Ty → Verdict) : Action :=
  ⟨2, 2, fun
    | [x, y] => f x y
    | xs => .stop (.missingSlot 1 xs.length)⟩

def three (f : Ty → Ty → Ty → Verdict) : Action :=
  ⟨3, 3, fun
    | [x, y, z] => f x y z
    | xs => .stop (.missingSlot 2 xs.length)⟩

section

variable (op : Opcode) {a : Action} {slots : List Ty} (x y z : Ty) (rest : List Ty)

theorem rule_of_lt (h : slots.length < a.needed) :
    a.rule op slots = .refuse (.stackLength (some op) a.needed slots.length) := by
  rw [rule, Rule.require_of_lt op h]
  rfl

theorem rule_of_le (h : a.needed ≤ slots.length) :
    a.rule op slots = (a.result (slots.take a.taken)).map (· ++ slots.drop a.taken) := by
  rw [rule, Rule.require_of_le op h]
  rfl

theorem rule_put (v : Verdict) : (put v).rule op slots = v.map (· ++ slots) :=
  rule_of_le op (Nat.zero_le _)

theorem rule_one_cons (f : Ty → Verdict) :
    (one f).rule op (x :: rest) = (f x).map (· ++ rest) :=
  rule_of_le op (Nat.le_add_left 1 _)

theorem rule_two_cons (f : Ty → Ty → Verdict) :
    (two f).rule op (x :: y :: rest) = (f x y).map (· ++ rest) :=
  rule_of_le op (Nat.le_add_left 2 _)

theorem rule_three_cons (f : Ty → Ty → Ty → Verdict) :
    (three f).rule op (x :: y :: z :: rest) = (f x y z).map (· ++ rest) :=
  rule_of_le op (Nat.le_add_left 3 _)

end

/-- An overloaded operation on the top slot. If it has a single overload, the error names what the top slot should have
been. -/
def unary (op : Opcode) (accepted : List Ty) (result : Ty → Option Ty) : Action :=
  one fun x =>
    match result x, accepted with
    | some t, _ => .ok [t]
    | none, [_] => .refuse (.stackTop op accepted [x])
    | none, _ => .refuse (.operand op accepted [x])

def convert (op : Opcode) (operand result : Ty) : Action :=
  unary op [operand] fun x => if x = operand then some result else none

def resultFor (op : Opcode) (accepted operands : List Ty) : Option Ty → Verdict
  | some t => .ok [t]
  | none => .refuse (.operand op accepted operands)

def binary (op : Opcode) (accepted : Ty → Ty → List Ty) (result : Ty → Ty → Option Ty) : Action :=
  two fun x y => resultFor op (accepted x y) [x, y] (result x y)

end Action

/-- An overload of a binary operation: its operands, the top one first, and the type of the result. -/
structure Promotion where
  top : Ty
  below : Ty
  result : Ty

namespace Promotion

/-- Two natural numbers are taken as such, other numbers as integers. -/
def numbers (result : Ty → Ty) : List Promotion :=
  [⟨.nat, .nat, result .nat⟩, ⟨.nat, .int, result .int⟩, ⟨.int, .nat, result .int⟩,
    ⟨.int, .int, result .int⟩]

def lookup (x y : Ty) : List Promotion → Option Ty
  | [] => none
  | p :: rest => if x = p.top ∧ y = p.below then some p.result else lookup x y rest

/-- Numbers are listed as they are widened. -/
theorem lookup_numbers (x y : Ty) (result : Ty → Ty) :
    lookup x y (numbers result) = (Number.widen x y).map result := by
  unfold Number.widen
  split <;> grind [lookup, numbers]

theorem mem_of_lookup {x y t : Ty} {table : List Promotion} (h : lookup x y table = some t) :
    ⟨x, y, t⟩ ∈ table := by
  induction table with
  | nil => cases h
  | cons p rest ih =>
    rw [lookup] at h
    split at h
    · rename_i hp
      cases h
      rw [hp.1, hp.2]
      exact List.mem_cons_self
    · exact List.mem_cons_of_mem _ (ih h)

/-- Operands that are not listed have no result. -/
theorem lookup_eq_none {x y : Ty} {table : List Promotion}
    (h : ∀ p ∈ table, x = p.top → y = p.below → False) : lookup x y table = none := by
  induction table with
  | nil => rfl
  | cons p rest ih =>
    rw [lookup, if_neg fun hp => h p (.head _) hp.1 hp.2]
    exact ih fun q hq => h q (.tail _ hq)

end Promotion

/-- The overloads of a binary operation. Options are compared as well if their contents are equal. -/
def Opcode.promotions : Opcode → List Promotion
  | .add => ⟨.mutez, .mutez, .mutez⟩ :: Promotion.numbers id
  | .mul => ⟨.mutez, .nat, .mutez⟩ :: ⟨.nat, .mutez, .mutez⟩ :: Promotion.numbers id
  | .sub => ⟨.timestamp, .timestamp, .int⟩ :: Promotion.numbers fun _ => .int
  | .ediv =>
    ⟨.mutez, .mutez, .option (.pair .nat .mutez)⟩ ::
      ⟨.mutez, .nat, .option (.pair .mutez .mutez)⟩ ::
        Promotion.numbers fun quotient => .option (.pair quotient .nat)
  | .subMutez => [⟨.mutez, .mutez, .option .mutez⟩]
  | .or | .xor => [⟨.bool, .bool, .bool⟩, ⟨.nat, .nat, .nat⟩]
  | .and => [⟨.bool, .bool, .bool⟩, ⟨.nat, .nat, .nat⟩, ⟨.int, .nat, .nat⟩]
  | .concat => [⟨.string, .string, .string⟩, ⟨.bytes, .bytes, .bytes⟩]
  | .compare =>
    [.int, .nat, .string, .bytes, .address, .mutez, .timestamp].map fun t => ⟨t, t, .int⟩
  | _ => []

namespace Action

open Collection (anyMap anyBigMap isValueOf)
open Pairs (anyPair)

def overloaded (op : Opcode) (accepted : Ty → Ty → List Ty) : Action :=
  binary op accepted fun x y => Promotion.lookup x y op.promotions

protected def compare : Action :=
  two fun x y =>
    match x, y with
    | .option l, .option r =>
      if l.equals r then .ok [.int]
      else .refuse (.stackTop .compare [.option l, .option l] [x, y])
    | x, y =>
      resultFor .compare
        [.int, .nat, .string, .bytes, .address, .mutez, .option (.var "a"), .timestamp] [x, y]
        (Promotion.lookup x y (Opcode.promotions .compare))

def slice : Action :=
  three fun x y z =>
    match x, y, z with
    | .nat, .nat, .string => .ok [.option .string]
    | .nat, .nat, .bytes => .ok [.option .bytes]
    | _, _, _ => .refuse (.operand .slice [.string, .bytes] [x, y, z])

def size : Action :=
  unary .size [.string, .bytes, .list (.var "a"), .set (.var "a"), anyMap] fun
    | .string | .bytes | .list _ | .set _ | .map _ _ => some .nat
    | _ => none

protected def not : Action :=
  unary .not [.int, .nat, .bool] fun x => if x = .bool then some .bool else Number.integer x

def address : Action :=
  unary .address [.contract (.var "a")] fun
    | .contract _ => some .address
    | _ => none

def transferTokens : Action :=
  three fun x y z =>
    let mismatch := .refuse (.stackTop .transferTokens
      [.var "a", .mutez, .contract (.var "a")] [x, y, z])
    match y, z with
    | .mutez, .contract parameter => if x.equals parameter then .ok [.operation] else mismatch
    | _, _ => mismatch

protected def cons : Action :=
  two fun x y =>
    let mismatch := .refuse (.stackTop .cons [.var "a", .list (.var "a")] [x, y])
    match y with
    | .list t => if x.equals t then .ok [y] else mismatch
    | _ => mismatch

protected def mem : Action :=
  two fun x y =>
    match y with
    | .set t => if x.equals t then .ok [.bool] else .refuse (.setElement .mem x y)
    | .map k _ | .bigMap k _ => if x.equals k then .ok [.bool] else .refuse (.mapKey .mem x y)
    | _ => .refuse (.operand .mem [anyMap, anyBigMap] [x, y])

protected def get : Action :=
  two fun x y =>
    match y with
    | .map k v | .bigMap k v =>
      if x.equals k then .ok [.option v] else .refuse (.mapKey .get x y)
    | _ => .refuse (.operand .get [anyMap, anyBigMap] [x, y])

protected def update : Action :=
  three fun x y z =>
    match z with
    | .set t =>
      if !x.equals t then .refuse (.setElement .update x z)
      else if y = .bool then .ok [z]
      else .refuse (.stackTop .update [t, .bool, z] [x, y, z])
    | .map k v | .bigMap k v =>
      if !x.equals k then .refuse (.mapKey .update x z)
      else if isValueOf v y then .ok [z]
      else .refuse (.mapValue .update y z)
    | _ => .refuse (.operand .update [.set (.var "a"), anyMap, anyBigMap] [x, y, z])

def onPair (f : Ty → Ty → Verdict) (refusal : Ty → TypeError) : Action :=
  one fun x =>
    match x.split? with
    | some (l, r) => f l r
    | none => .refuse (refusal x)

def car : Action :=
  onPair (fun l _ => .ok [l]) fun x => .stackTop .car [anyPair] [x]

def cdr : Action :=
  onPair (fun _ r => .ok [r]) fun x => .stackTop .cdr [anyPair] [x]

def unpair : Action :=
  onPair (fun l r => .ok [l, r]) (.wrongForm .unpair anyPair)

protected def pair : Action :=
  two fun x y => .ok [.pair x y]

def pairN (n : Nat) : Action :=
  if n < 2 then put (.refuse (.malformed .pair (.pairBelowTwo n)))
  else ⟨n, n, fun xs =>
    match Ty.comb? xs with
    | some t => .ok [t]
    | none => .stop .emptyComb⟩

def component (x : Ty) (found : Option Ty) (mismatch outOfRange : TypeError) : Verdict :=
  match x.split?, found with
  | none, _ => .refuse mismatch
  | some _, none => .refuse outOfRange
  | some _, some t => .ok [t]

def getN (n : Nat) : Action :=
  one fun x => component x (x.simplify.get? n) (.stackTop .get [anyPair] [x])
    (.malformed .get (.indexOutOfRange n x.simplify))

def updateN (n : Nat) : Action :=
  two fun x y => component y (y.simplify.update? n x) (.stackTop .update [.var "c", anyPair] [x, y])
    (.malformed .update (.indexOutOfRange n y.simplify))

def exec : Action :=
  two fun x y =>
    match y with
    | .lambda f =>
      if x.simplify.equals f.arg.simplify then .ok [f.ret]
      else .refuse (.lambdaType .exec f.arg x)
    | _ => .refuse (.wrongForm .exec (.function (.var "a") (.var "b") []) y)

protected def apply : Action :=
  two fun x y =>
    let mismatch := .refuse (.stackTop .apply
      [.var "T", .function (.pair (.var "T") (.var "U")) (.var "V") []] [x, y])
    match y with
    | .lambda f =>
      match f.arg.simplify with
      | .pair l r =>
        if l.equals x.simplify then .ok [.lambda { f with arg := r, applied := f.applied ++ [x] }]
        else mismatch
      | _ => mismatch
    | _ => mismatch

def pushLiteral (t : Ty) (l : Literal) : Action :=
  put (if Shuffle.fits t l then .ok [t] else .refuse (.literalType t l))

protected def drop (n : Nat) : Action :=
  ⟨n, n, fun _ => .ok []⟩

def dup : Nat → Action
  | 0 => put (.refuse (.malformed .dup .dupZero))
  | n + 1 => ⟨n + 1, n + 1, fun xs => (slotAt xs n).map (· :: xs)⟩

def dig (n : Nat) : Action :=
  ⟨Size.succ n, n + 1, fun xs => (slotAt xs n).map (· :: xs.take n)⟩

/-- The top slot goes to depth `n`. There may be one slot too few for that where no more can be counted. -/
def dug (n : Nat) : Action :=
  ⟨Size.succ n, n + 1, fun
    | [] => .refuse (.stackLength none 1 0)
    | x :: xs =>
      if xs.length < n then .refuse (.stackLength none n xs.length) else .ok (xs ++ [x])⟩

def swap : Action :=
  two fun x y => .ok [y, x]

end Action

def Opcode.hasBody : Opcode → Bool
  | .lambda | .dip | .loop | .iter | .ifBool | .ifNone | .ifLeft | .ifCons => true
  | _ => false

open Operand (typeAt literalAt natAt nat?)

/-- What an instruction does, by its arguments. This leaves out those with nested code and `FAILWITH`, which keeps nothing
of what is below. -/
def Opcode.action (op : Opcode) (args : List Operand) : Outcome TypeError Action :=
  match op with
  | .push => do
    let t ← typeAt op args 0
    let l ← literalAt op args 1
    return .pushLiteral t l
  | .drop => do
    let n ← nat? op args
    return .drop (n.getD 1)
  | .dup => do
    let n ← nat? op args
    return .dup (n.getD 1)
  | .dig => do
    let n ← natAt op args 0
    return .dig n
  | .dug => do
    let n ← natAt op args 0
    return .dug n
  | .swap => return .swap
  | .exec => return .exec
  | .apply => return .apply
  | .comment => return .put (.ok [])
  | .eq | .neq | .lt | .gt | .le | .ge => return .convert op .int .bool
  | .some => return .one fun x => .ok [.option x]
  | .none => do
    let t ← typeAt op args 0
    return .put (.ok [.option t])
  | .left => do
    let t ← typeAt op args 0
    return .one fun x => .ok [.or x t]
  | .right => do
    let t ← typeAt op args 0
    return .one fun x => .ok [.or t x]
  | .car => return .car
  | .cdr => return .cdr
  | .unpair => return .unpair
  | .pair => do
    let n ← nat? op args
    return n.elim .pair .pairN
  | .nil => do
    let t ← typeAt op args 0
    return .put (.ok [.list t])
  | .cons => return .cons
  | .emptySet => do
    let t ← typeAt op args 0
    return .put (.ok [.set t])
  | .emptyMap => do
    let k ← typeAt op args 0
    let v ← typeAt op args 1
    return .put (.ok [.map k v])
  | .emptyBigMap => do
    let k ← typeAt op args 0
    let v ← typeAt op args 1
    return .put (.ok [.bigMap k v])
  | .size => return .size
  | .mem => return .mem
  | .get => do
    let n ← nat? op args
    return n.elim .get .getN
  | .update => do
    let n ← nat? op args
    return n.elim .update .updateN
  | .pack => return .one fun _ => .ok [.bytes]
  | .unpack => do
    let t ← typeAt op args 0
    return .convert op .bytes (.option t)
  | .concat => return .overloaded op fun _ _ => [.string, .bytes]
  | .slice => return .slice
  | .blake2b | .keccak | .sha256 | .sha512 | .sha3 => return .convert op .bytes .bytes
  | .compare => return .compare
  | .add => return .overloaded op fun _ _ => [.int, .nat, .mutez]
  | .sub => return .overloaded op fun _ _ => [.int, .nat, .timestamp]
  | .subMutez => return .overloaded op fun _ _ => [.mutez]
  | .mul => return .overloaded op fun x y =>
      if x = .mutez ∨ y = .mutez then [.mutez, .nat] else [.int, .nat, .mutez]
  | .ediv => return .overloaded op fun x _ =>
      if x = .mutez then [.mutez, .nat] else [.int, .nat, .mutez]
  | .neg => return .unary op [.int, .nat] Number.integer
  | .abs => return .convert op .int .nat
  | .isnat => return .convert op .int (.option .nat)
  | .int => return .convert op .nat .int
  | .or | .xor => return .overloaded op fun _ _ => [.nat, .bool]
  | .and => return .overloaded op fun _ _ => [.int, .nat, .bool]
  | .not => return .not
  | .unit => return .put (.ok [.unit])
  | .now => return .put (.ok [.timestamp])
  | .selfAddress | .sender | .source => return .put (.ok [.address])
  | .amount | .balance => return .put (.ok [.mutez])
  | .address => return .address
  | .contract => do
    let t ← typeAt op args 0
    return .convert op .address (.option (.contract t))
  | .transferTokens => return .transferTokens
  | .failwith | .lambda | .dip | .ifBool | .ifNone | .ifLeft | .ifCons | .loop | .iter =>
    .stop (.nestedCode op)

namespace Rule

def failWith : Rule :=
  onTop .failwith fun _ _ => .ok [.universal]

def plain (op : Opcode) (args : List Operand) : Rule :=
  match op with
  | .failwith => failWith
  | op => fun slots => op.action args >>= fun a => a.rule op slots

end Rule

end Michelson

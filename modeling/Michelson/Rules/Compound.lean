import Michelson.Edit

namespace Michelson

open Edit

namespace Options

protected def some : Edit Unit :=
  wrap .some .option

protected def compare : Edit Unit := do
  require .compare 2
  match ← slot 0, ← slot 1 with
  | .option l, .option r =>
    if l.equals r then
      drop 2
      push .int
    else refuse (.stackTop .compare [.option l, .option l] (← topTypes 2))
  | .option l, _ => refuse (.stackTop .compare [.option l, .option l] (← topTypes 2))
  | _, _ =>
    refuse (.stackTop .compare [.option (.var "a"), .option (.var "a")] (← topTypes 2))

end Options

namespace Unions

def left (right : Ty) : Edit Unit :=
  wrap .left (.or · right)

def right (left : Ty) : Edit Unit :=
  wrap .right (.or left ·)

end Unions

namespace Pairs

def anyPair : Ty :=
  .pair (.var "a") (.var "b")

def topPair (op : Opcode) : Edit (Ty × Ty) := do
  match (← top op).split? with
  | some components => return components
  | none => refuse (.stackTop op [anyPair] [← slot 0])

def car : Edit Unit := do
  let (l, _) ← topPair .car
  setSlot 0 l

def cdr : Edit Unit := do
  let (_, r) ← topPair .cdr
  setSlot 0 r

def unpair : Edit Unit := do
  match (← top .unpair).split? with
  | some (l, r) =>
    setSlot 0 r
    push l
  | none => refuse (.wrongForm .unpair anyPair (← slot 0))

def pair : Edit Unit := do
  require .pair 2
  let l ← pop
  let r ← pop
  push (.pair l r)

def popEach : Nat → Edit (List Ty)
  | 0 => return []
  | n + 1 => do
    let t ← pop
    return t :: (← popEach n)

/-- The top `n` slots as a comb, the top one leftmost. -/
def pairN (n : Nat) : Edit Unit := do
  if n < 2 then refuse (.malformed .pair (.pairBelowTwo n))
  else
    require .pair n
    match Ty.combFromLast? (← popEach n) with
    | some t => push t
    | none => lift (.stop .emptyComb)

def getN (n : Nat) : Edit Unit := do
  let _ ← topPair .get
  let whole := (← slot 0).simplify
  match ← lift (whole.component n) with
  | some t => setSlot 0 t
  | none => refuse (.malformed .get (.indexOutOfRange n whole))

def updateN (n : Nat) : Edit Unit := do
  require .update 2
  let y ← slot 1
  match y.split? with
  | some _ =>
    match ← lift (y.simplify.withComponent n (← slot 0)) with
    | some t =>
      let _ ← pop
      setSlot 0 t
    | none => refuse (.malformed .update (.indexOutOfRange n y.simplify))
  | none => refuse (.stackTop .update [.var "c", anyPair] [← slot 0, y])

end Pairs

namespace Collection

def anyMap : Ty :=
  .map (.var "k") (.var "v")

def anyBigMap : Ty :=
  .bigMap (.var "k") (.var "v")

def entry? : Ty → Option (Ty × Ty)
  | .map k v | .bigMap k v => some (k, v)
  | _ => none

protected def cons : Edit Unit := do
  require .cons 2
  let x ← slot 0
  let suits := match ← slot 1 with
    | .list t => x.equals t
    | _ => false
  if suits then
    let _ ← pop
  else refuse (.stackTop .cons [.var "a", .list (.var "a")] (← topTypes 2))

def size : Edit Unit :=
  unary .size [.string, .bytes, .list (.var "a"), .set (.var "a"), anyMap] fun
    | .list _ | .set _ | .map _ _ => some .nat
    | _ => none

def memSet : Edit Unit := do
  require .mem 2
  match ← slot 1 with
  | .set t =>
    if (← slot 0).equals t then
      drop 2
      push .bool
    else refuse (.setElement .mem (← slot 0) (← slot 1))
  | _ => refuse (.stackTop .mem [.var "a", .set (.var "a")] (← topTypes 2))

/-- The type of the values of the map below the top, which must be a key of it. -/
def valueAtKey (op : Opcode) : Edit Ty := do
  match entry? (← slot 1) with
  | some (k, v) =>
    if (← slot 0).equals k then return v
    else refuse (.mapKey op (← slot 0) (← slot 1))
  | none => refuse (.operand op [anyMap, anyBigMap] (← topTypes 2))

def memMap : Edit Unit := do
  require .mem 2
  let _ ← valueAtKey .mem
  drop 2
  push .bool

def getMap : Edit Unit := do
  require .get 2
  let v ← valueAtKey .get
  drop 2
  push (.option v)

def refuseUpdate : Edit Unit := do
  refuse (.operand .update [.set (.var "a"), anyMap, anyBigMap] (← topTypes 3))

def updateSet : Edit Unit := do
  require .update 3
  match ← slot 2 with
  | .set t =>
    if !(← slot 0).equals t then refuse (.setElement .update (← slot 0) (← slot 2))
    else if (← slot 1) ≠ .bool then
      refuse (.stackTop .update [t, .bool, ← slot 2] (← topTypes 3))
    else drop 2
  | _ => refuseUpdate

def isValueOf (v : Ty) : Ty → Bool
  | .option t => t.equals v
  | _ => false

def updateMap : Edit Unit := do
  require .update 3
  match entry? (← slot 2) with
  | some (k, v) =>
    if !(← slot 0).equals k then refuse (.mapKey .update (← slot 0) (← slot 2))
    else if isValueOf v (← slot 1) then drop 2
    else refuse (.mapValue .update (← slot 1) (← slot 2))
  | none => refuseUpdate

end Collection

namespace Function

def exec : Edit Unit := do
  require .exec 2
  match ← slot 1 with
  | .lambda f =>
    if (← slot 0).simplify.equals f.arg.simplify then
      drop 2
      push f.ret
    else refuse (.lambdaType .exec f.arg (← slot 0))
  | t => refuse (.wrongForm .exec (.function (.var "a") (.var "b") []) t)

def refuseApply : Edit Unit := do
  refuse (.stackTop .apply [.var "T", .function (.pair (.var "T") (.var "U")) (.var "V") []]
    [← slot 0, ← slot 1])

/-- The first component of its argument on top of a lambda. -/
def apply : Edit Unit := do
  require .apply 2
  match ← slot 1 with
  | .lambda f =>
    match f.arg.simplify with
    | .pair l r =>
      if l.equals (← slot 0).simplify then
        let x ← pop
        setSlot 0 (.lambda { f with arg := r, applied := f.applied ++ [x] })
      else refuseApply
    | _ => refuseApply
  | _ => refuseApply

end Function

end Michelson

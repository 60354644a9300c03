import Michelson.Operand

namespace Michelson

open Operand (typeAt codeAt natAt)

namespace Check

/-- The body works below the top `n` slots. If it diverges, so does the whole stack. -/
def dip (n : Nat) (body : Body) : Check Unit := do
  edit (Edit.require .dip n)
  let failed ← protect n do
    inScope .dip body.check
    diverged
  if failed then edit Edit.diverge

/-- A repeated body has to end with this stack, unless it diverges. -/
def endsWith (op : Opcode) (expected left : Stack) : Outcome TypeError Unit :=
  if left.diverged then .ok ()
  else if left.length ≠ expected.length then
    .refuse (.stackLength (some op) expected.length left.length)
  else if left.equals expected then .ok ()
  else .refuse (.stackTop op expected.visible left.visible)

def loop (body : Body) : Check Unit := do
  let x ← edit (Edit.top .loop)
  if x = .bool then
    let _ ← pop
    let rest ← fork
    let left ← onStack rest (inScope .loop body.check)
    lift (endsWith .loop (rest.push .bool) left)
  else refuse (.stackTop .loop [.bool] [x])

def elements? : Ty → Option Ty
  | .list t | .set t => some t
  | .map k v => some (.pair k v)
  | _ => none

def iter (body : Body) : Check Unit := do
  let x ← edit (Edit.top .iter)
  match elements? x with
  | some t =>
    let _ ← pop
    let rest ← fork
    let left ← onStack (rest.push t) (inScope .iter body.check)
    lift (endsWith .iter rest left)
  | none =>
    refuse (.operand .iter [.list (.var "a"), .set (.var "a"), .map (.var "k") (.var "v")] [x])

def returns (ret : Ty) (left : Stack) : Outcome TypeError Unit :=
  if left.diverged then .ok ()
  else if left.length ≠ 1 then .refuse (.stackLength (some .lambda) 1 left.length)
  else do
    let t ← left.slot 0
    if t.equals ret then .ok () else .refuse (.lambdaType .lambda ret t)

def lambda (arg ret : Ty) (body : Body) : Check Unit := do
  let left ← onStack (.ofSlots [arg]) (inScope .lambda body.check)
  lift (returns ret left)
  push (.function arg ret body.code)

def dipOperands (args : List Operand) : Outcome TypeError (Nat × Body) :=
  match args with
  | [_, _] => do
    let n ← natAt .dip args 0
    let body ← codeAt .dip args 1
    return (n, body)
  | _ => do
    let body ← codeAt .dip args 0
    return (1, body)

end Check

/-- The instructions that take a value apart and go on in one of two branches. -/
inductive Conditional where
  | ifBool | ifNone | ifLeft | ifCons
  deriving DecidableEq, Repr

namespace Conditional

def opcode : Conditional → Opcode
  | ifBool => .ifBool
  | ifNone => .ifNone
  | ifLeft => .ifLeft
  | ifCons => .ifCons

def expected : Conditional → Ty
  | ifBool => .bool
  | ifNone => .option (.var "a")
  | ifLeft => .or (.var "a") (.var "b")
  | ifCons => .list (.var "a")

def accepts : Conditional → Ty → Bool
  | ifBool, .bool | ifNone, .option _ | ifLeft, .or _ _ | ifCons, .list _ => true
  | _, _ => false

def branches (c : Conditional) (args : List Operand) : Outcome TypeError (Body × Body) :=
  if args.length ≠ 2 then .refuse (.malformed c.opcode .notTwoBranches)
  else do
    let a ← codeAt c.opcode args 0
    let b ← codeAt c.opcode args 1
    return (a, b)

/-- Take the value on top apart, as a branch finds it. -/
def prepare (c : Conditional) (branch : Branch) : Edit Unit := do
  match c, branch, ← Edit.pop with
  | ifBool, _, _ | ifNone, .onTrue, _ | ifCons, .onFalse, _ => return
  | ifNone, .onFalse, .option t => Edit.push t
  | ifLeft, .onTrue, .or l _ => Edit.push l
  | ifLeft, .onFalse, .or _ r => Edit.push r
  | ifCons, .onTrue, .list t =>
    Edit.push (.list t)
    Edit.push t
  | _, _, _ => Edit.lift (.stop (.unpreparedBranch c.opcode))

def checkBranch (c : Conditional) (branch : Branch) (body : Body) : Check Stack := do
  let stack ← Check.fork
  Check.onStack stack do
    Check.edit (c.prepare branch)
    Check.inScope c.opcode body.check

/-- Whether what is on top is never reached. An empty stack has nothing on top. -/
def neverLeft (s : Stack) : Outcome TypeError Bool :=
  match s.top with
  | .ok t => .ok t.isUniversal
  | .error (.error _) => .ok false
  | .error (.fault f) => .stop f

/-- A branch that is never left takes the stack of the other. -/
def reached (op : Opcode) (branch : Branch) (own other : Stack) : Check Stack := do
  if ← Check.lift (neverLeft own) then
    Check.emit (.diverges op branch)
    return other
  else return own

def join (op : Opcode) (a b : Stack) : Check Unit := do
  let a ← reached op .onTrue a b
  let b ← reached op .onFalse b a
  if a.equals b then Check.edit (Edit.replace a)
  else Check.refuse (.branches op a b)

def check (c : Conditional) (args : List Operand) : Check Unit := do
  let x ← Check.edit (Edit.top c.opcode)
  if c.accepts x then
    let (onTrue, onFalse) ← Check.lift (c.branches args)
    let a ← c.checkBranch .onTrue onTrue
    let b ← c.checkBranch .onFalse onFalse
    join c.opcode a b
  else Check.refuse (.stackTop c.opcode [c.expected] [x])

end Conditional

end Michelson

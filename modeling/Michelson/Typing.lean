import Michelson.Rules.Flat
import Michelson.Rules.Nested

namespace Michelson

def Check.ofOpcode (op : Opcode) (args : List Operand) : Check Unit :=
  match op with
  | .lambda => do
    let arg ← lift (Operand.typeAt op args 0)
    let ret ← lift (Operand.typeAt op args 1)
    let body ← lift (Operand.codeAt op args 2)
    lambda arg ret body
  | .dip => do
    let (n, body) ← lift (dipOperands args)
    dip n body
  | .loop => do
    let body ← lift (Operand.codeAt op args 0)
    loop body
  | .iter => do
    let body ← lift (Operand.codeAt op args 0)
    iter body
  | .ifBool => Conditional.ifBool.check args
  | .ifNone => Conditional.ifNone.check args
  | .ifLeft => Conditional.ifLeft.check args
  | .ifCons => Conditional.ifCons.check args
  | _ => edit (Edit.flat op args)

def Check.instruction (op : Opcode) (args : List Operand) : Check Unit := do
  lift (Operand.count op args)
  ofOpcode op args
  let slots ← visible
  emit (.checked op slots)

mutual

def Instr.check : Instr → Check Unit
  | ⟨op, args⟩ => Check.instruction op (operands args)

def operands : List Arg → List Operand
  | [] => []
  | arg :: args => arg.operand :: operands args

def Arg.operand : Arg → Operand
  | .code body => .code ⟨body, checkCode body⟩
  | .type t => .type t
  | .literal l => .literal l

/-- Check one instruction after the other, up to one after which the stack is never reached. -/
def checkCode : List Instr → Check Unit
  | [] => pure ()
  | i :: rest => do
    i.check
    if ← Check.diverged then pure () else checkCode rest

end

def checkFragment (stack : Stack) (code : List Instr) : Check Stack :=
  Check.onStack stack (checkCode code)

namespace Contract

def result (c : Contract) : Stack :=
  .ofSlots [.pair (.list .operation) c.storage.simplify]

/-- The code turns parameter and storage into operations and storage. -/
def check (c : Contract) : Check Unit := do
  let left ← checkFragment (.ofSlots [.pair c.parameter c.storage]) c.code
  Check.lift <|
    if left.length = 1 ∧ left.equals c.result then .ok ()
    else .refuse (.contractResult left c.result)

end Contract

end Michelson

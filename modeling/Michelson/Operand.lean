import Michelson.Check

namespace Michelson

structure Body where
  code : List Instr
  check : Check Unit

/-- An argument as the rule of an instruction sees it. -/
inductive Operand where
  | code (body : Body)
  | type (t : Ty)
  | literal (l : Literal)

/-- The least and the greatest number of arguments. Comments take any number, and conditionals count theirs only after
they have seen the value they take apart. -/
def Opcode.arity : Opcode → Option (Nat × Nat)
  | .comment | .ifBool | .ifNone | .ifLeft | .ifCons => .none
  | .lambda => .some (3, 3)
  | .push | .emptyMap | .emptyBigMap => .some (2, 2)
  | .dip => .some (1, 2)
  | .none | .left | .right | .nil | .emptySet | .unpack | .contract | .iter | .loop | .dig
  | .dug => .some (1, 1)
  | .dup | .drop | .pair | .get | .update => .some (0, 1)
  | _ => .some (0, 0)

namespace Operand

def count (op : Opcode) (args : List Operand) : Outcome TypeError Unit :=
  match op.arity with
  | some (least, most) =>
    if args.length < least ∨ most < args.length then
      .refuse (.malformed op (.arity least most args.length))
    else .ok ()
  | none => .ok ()

def typeAt (op : Opcode) (args : List Operand) (index : Nat) : Outcome TypeError Ty :=
  match args[index]? with
  | some (.type t) => .ok t
  | _ => .refuse (.malformed op (.notType index))

def codeAt (op : Opcode) (args : List Operand) (index : Nat) : Outcome TypeError Body :=
  match args[index]? with
  | some (.code body) => .ok body
  | _ => .refuse (.malformed op (.notCode index))

def literalAt (op : Opcode) (args : List Operand) (index : Nat) : Outcome TypeError Literal :=
  match args[index]? with
  | some (.literal l) => .ok l
  | _ => .refuse (.malformed op (.notLiteral index))

def natAt (op : Opcode) (args : List Operand) (index : Nat) : Outcome TypeError Nat :=
  match args[index]? with
  | some (.literal (.int (.ofNat n))) =>
    if n ≤ Size.max then .ok n else .refuse (.malformed op (.notNat index))
  | _ => .refuse (.malformed op (.notNat index))

def nat? (op : Opcode) (args : List Operand) : Outcome TypeError (Option Nat) :=
  if args.isEmpty then .ok none else (natAt op args 0).map some

end Operand

end Michelson

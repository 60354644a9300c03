import Michelson.Opcode

namespace Michelson

/-- A state of affairs that the checker relies on never to arise. -/
inductive Fault where
  /-- A slot was looked for below the visible part of the stack. -/
  | missingSlot (depth length : Nat)
  /-- A size was subtracted from a smaller one. -/
  | negative (minuend subtrahend : Nat)
  /-- An instruction with nested code was handed to the rules for those without. -/
  | nestedCode (op : Opcode)
  /-- A branch was prepared on a value that its conditional does not take apart. -/
  | unpreparedBranch (op : Opcode)
  /-- A comb was made of no types at all. -/
  | emptyComb
  deriving DecidableEq, Repr

inductive Failure (ε : Type) where
  | error (e : ε)
  | fault (f : Fault)

/-- A result, an error that says why the input is refused, or a fault. -/
abbrev Outcome (ε α : Type) := Except (Failure ε) α

namespace Outcome

variable {ε ε' α β : Type}

def refuse (e : ε) : Outcome ε α :=
  .error (.error e)

def stop (f : Fault) : Outcome ε α :=
  .error (.fault f)

def mapError (f : ε → ε') : Outcome ε α → Outcome ε' α
  | .ok a => .ok a
  | .error (.error e) => .error (.error (f e))
  | .error (.fault f) => .error (.fault f)

@[simp] theorem ok_bind (a : α) (f : α → Outcome ε β) : (Except.ok a >>= f) = f a := rfl

@[simp] theorem error_bind (e : Failure ε) (f : α → Outcome ε β) :
    (Except.error e >>= f) = .error e := rfl

end Outcome

end Michelson

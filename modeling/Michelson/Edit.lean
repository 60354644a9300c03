import Michelson.Error

namespace Michelson

/-- Work on a stack in place. What has been done to the stack when the work fails is not undone. -/
def Edit (α : Type) := Stack → Outcome TypeError α × Stack

namespace Edit

variable {α : Type}

def run (m : Edit α) (s : Stack) : Outcome TypeError α × Stack :=
  m s

instance : Monad Edit where
  pure a := fun s => (.ok a, s)
  bind m f := fun s =>
    match m s with
    | (.ok a, s) => f a s
    | (.error e, s) => (.error e, s)

instance : LawfulMonad Edit := LawfulMonad.mk' Edit
  (by
    intro α m
    funext s
    simp only [Functor.map]
    rcases m s with ⟨_ | _, _⟩ <;> rfl)
  (by
    intro α β a f
    rfl)
  (by
    intro α β γ m f g
    funext s
    simp only [bind]
    rcases m s with ⟨_ | _, _⟩ <;> rfl)

def lift (x : Outcome TypeError α) : Edit α :=
  fun s => (x, s)

def refuse (e : TypeError) : Edit α :=
  lift (.refuse e)

def stack : Edit Stack :=
  fun s => (.ok s, s)

def setStack (s : Stack) : Edit Unit :=
  fun _ => (.ok (), s)

/-- An operation of the stack. Where it needs more slots than there are, its error names no instruction. -/
def ofStack (f : Stack → Outcome Stack.TooShort (α × Stack)) : Edit α := do
  let (a, s) ← lift ((f (← stack)).mapError .ofTooShort)
  setStack s
  return a

/-- Refused, in the name of an instruction, unless `n` slots are visible. -/
def require (op : Opcode) (n : Nat) : Edit Unit := do
  lift (((← stack).require n).mapError fun e => .stackLength (some op) e.expected e.actual)

def visible : Edit (List Ty) :=
  return (← stack).visible

/-- The types of the top `n` slots, or of fewer if there are not so many. -/
def topTypes (n : Nat) : Edit (List Ty) :=
  return (← stack).visible.take n

def slot (depth : Nat) : Edit Ty := do
  lift ((← stack).slot depth)

def setSlot (depth : Nat) (t : Ty) : Edit Unit := do
  setStack (← lift ((← stack).setSlot depth t))

def push (t : Ty) : Edit Unit := do
  setStack ((← stack).push t)

def pop : Edit Ty :=
  ofStack Stack.pop

def drop (n : Nat) : Edit Unit :=
  ofStack fun s => return ((), ← s.drop n)

def insert (depth : Nat) (t : Ty) : Edit Unit :=
  ofStack fun s => return ((), ← s.insert depth t)

def delete (depth : Nat) : Edit Ty :=
  ofStack (·.delete depth)

def replace (other : Stack) : Edit Unit := do
  setStack ((← stack).replace other)

def diverge : Edit Unit := do
  setStack (← stack).diverge

def top (op : Opcode) : Edit Ty := do
  require op 1
  slot 0

/-- Replace the top slot by the result of an overloaded operation. If a single type is accepted, the error names what the
top slot should have been. -/
def unary (op : Opcode) (accepted : List Ty) (result : Ty → Option Ty) : Edit Unit := do
  match result (← top op) with
  | some t => setSlot 0 t
  | none =>
    if accepted.length = 1 then refuse (.stackTop op accepted [← slot 0])
    else refuse (.operand op accepted [← slot 0])

def convert (op : Opcode) (operand result : Ty) : Edit Unit :=
  unary op [operand] fun x => if x = operand then some result else none

def wrap (op : Opcode) (f : Ty → Ty) : Edit Unit := do
  require op 1
  push (f (← pop))

def binary (op : Opcode) (accepted : List Ty) (result : Ty → Ty → Option Ty) : Edit Unit := do
  require op 2
  match result (← slot 0) (← slot 1) with
  | some t =>
    drop 2
    push t
  | none => refuse (.operand op accepted (← topTypes 2))

def both (op : Opcode) (accepted : List Ty) (operand result : Ty) : Edit Unit :=
  binary op accepted fun x y => if x = operand ∧ y = operand then some result else none

end Edit

end Michelson

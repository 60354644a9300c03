import Michelson.Edit

namespace Michelson.Shuffle

open Edit

/-- Whether a literal may be pushed with a type. Only its kind counts, not its value. -/
def fits : Ty → Literal → Bool
  | .int, .int _ | .nat, .int _ | .mutez, .int _ | .timestamp, .int _ => true
  | .string, .string _ | .address, .string _ | .timestamp, .string _ => true
  | .bool, .bool _ | .unit, .unit | .bytes, .bytes _ => true
  | _, _ => false

def pushLiteral (t : Ty) (l : Literal) : Edit Unit :=
  if fits t l then push t else refuse (.literalType t l)

protected def drop (n : Nat) : Edit Unit := do
  require .drop n
  Edit.drop n

/-- A copy of the `n`-th slot, counted from one. -/
def dup (n : Nat) : Edit Unit := do
  if n = 0 then refuse (.malformed .dup .dupZero)
  else
    require .dup n
    let depth ← lift (Size.minus (.negative n 1) n 1)
    push (← slot depth)

def dig (n : Nat) : Edit Unit := do
  require .dig (Size.succ n)
  push (← delete n)

def dug (n : Nat) : Edit Unit := do
  require .dug (Size.succ n)
  insert n (← pop)

def swap : Edit Unit := do
  require .swap 2
  insert 1 (← pop)

def failWith : Edit Unit := do
  require .failwith 1
  diverge

end Michelson.Shuffle

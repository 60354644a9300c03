import Michelson.Size
import Michelson.Ty.Equals
import Michelson.Ty.Render

namespace Michelson

def Ty.isUniversal : Ty → Bool
  | .universal => true
  | _ => false

/-- Slot by slot equality from the top. From a slot of type `universal` downwards any two stacks are equal. -/
def slotsEqual : List Ty → List Ty → Bool
  | [], [] => true
  | a :: as, b :: bs => a.isUniversal || b.isUniversal || (a.equals b && slotsEqual as bs)
  | _, _ => false

def isDiverged : List Ty → Bool
  | [.universal] => true
  | _ => false

/-- A stack of types. Only the visible slots can be worked on. Depth `0` is the top. -/
structure Stack where
  /-- The visible slots, top first. -/
  visible : List Ty
  /-- The hidden slots, the latest frame first and each frame top first. -/
  frames : List (List Ty)
  deriving DecidableEq

namespace Stack

structure TooShort where
  expected : Nat
  actual : Nat
  deriving DecidableEq, Repr

def TooShort.message (e : TooShort) : String :=
  "stack too short: expected at least " ++ toString e.expected ++ " elements, got " ++
    toString e.actual

def ofSlots (slots : List Ty) : Stack :=
  ⟨slots, []⟩

def length (s : Stack) : Nat :=
  s.visible.length

def isEmpty (s : Stack) : Bool :=
  s.visible.isEmpty

/-- The visible slots, bottom first. A slot is found by its position among them. -/
def items (s : Stack) : List Ty :=
  s.visible.reverse

def withItems (s : Stack) (items : List Ty) : Stack :=
  { s with visible := items.reverse }

def require (s : Stack) (n : Nat) : Outcome TooShort Unit :=
  if s.length < n then .refuse ⟨n, s.length⟩ else .ok ()

def push (s : Stack) (t : Ty) : Stack :=
  { s with visible := t :: s.visible }

def pop (s : Stack) : Outcome TooShort (Ty × Stack) :=
  match s.visible with
  | [] => .refuse ⟨1, 0⟩
  | t :: rest => .ok (t, { s with visible := rest })

section

variable {ε : Type}

def position (s : Stack) (depth : Nat) : Outcome ε Nat := do
  let last ← Size.minus (.missingSlot depth s.length) s.length 1
  Size.minus (.missingSlot depth s.length) last depth

/-- The slot at a depth, which must be visible. -/
def slot (s : Stack) (depth : Nat) : Outcome ε Ty := do
  let position ← s.position depth
  match s.items[position]? with
  | some t => .ok t
  | none => .stop (.missingSlot depth s.length)

def setSlot (s : Stack) (depth : Nat) (t : Ty) : Outcome ε Stack := do
  let position ← s.position depth
  if position < s.length then return s.withItems (s.items.set position t)
  else .stop (.missingSlot depth s.length)

end

def get (s : Stack) (depth : Nat) : Outcome TooShort Ty := do
  s.require (Size.succ depth)
  s.slot depth

def top (s : Stack) : Outcome TooShort Ty :=
  s.get 0

/-- Insert a slot so that it ends up at `depth`. -/
def insert (s : Stack) (depth : Nat) (t : Ty) : Outcome TooShort Stack := do
  s.require depth
  let position ← Size.minus (.negative s.length depth) s.length depth
  if position ≤ s.length then return s.withItems (s.items.insertIdx position t)
  else .stop (.missingSlot depth s.length)

def delete (s : Stack) (depth : Nat) : Outcome TooShort (Ty × Stack) := do
  s.require (Size.succ depth)
  let position ← s.position depth
  match s.items[position]? with
  | some t => return (t, s.withItems (s.items.eraseIdx position))
  | none => .stop (.missingSlot depth s.length)

def drop (s : Stack) (n : Nat) : Outcome TooShort Stack := do
  s.require n
  let position ← Size.minus (.negative s.length n) s.length n
  return s.withItems (s.items.take position)

def clear (s : Stack) : Stack :=
  { s with visible := [] }

def hide (s : Stack) (n : Nat) : Outcome TooShort Stack := do
  s.require n
  let position ← Size.minus (.negative s.length n) s.length n
  if position ≤ s.length then
    return ⟨(s.items.take position).reverse, (s.items.drop position).reverse :: s.frames⟩
  else .stop (.missingSlot n s.length)

def restore (s : Stack) : Stack :=
  match s.frames with
  | [] => s
  | frame :: frames => ⟨frame ++ s.visible, frames⟩

def diverge (s : Stack) : Stack :=
  s.clear.push .universal

def diverged (s : Stack) : Bool :=
  isDiverged s.visible

def fork (s : Stack) : Stack :=
  ofSlots s.visible

def replace (s other : Stack) : Stack :=
  { s with visible := other.visible }

def equals (s t : Stack) : Bool :=
  slotsEqual s.visible t.visible

def render (s : Stack) : String :=
  renderStack s.visible

end Stack

end Michelson

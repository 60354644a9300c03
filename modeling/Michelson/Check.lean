import Michelson.Config
import Michelson.Edit

namespace Michelson

structure Context where
  config : Config
  depth : Nat

def Context.ofConfig (config : Config) : Context :=
  ⟨config, 0⟩

structure State where
  context : Context
  stack : Stack

inductive Branch where
  | onTrue | onFalse
  deriving DecidableEq, Repr

inductive Event where
  | entering (op : Opcode) (depth : Nat)
  | leaving (op : Opcode) (depth : Nat)
  /-- An instruction is accepted and leaves these visible slots. -/
  | checked (op : Opcode) (slots : List Ty)
  /-- A branch of a conditional is never left. -/
  | diverges (op : Opcode) (branch : Branch)
  deriving DecidableEq

def Event.render : Event → String
  | entering op depth =>
    "TRACE entering scope instr=" ++ op.mnemonic ++ " depth=" ++ toString depth
  | leaving op depth =>
    "TRACE leaving scope instr=" ++ op.mnemonic ++ " depth=" ++ toString depth
  | checked op slots => "DEBUG typechecked instr=" ++ op.mnemonic ++ " stack=" ++ renderStack slots
  | diverges op .onTrue => "DEBUG true branch diverges instr=" ++ op.mnemonic
  | diverges op .onFalse => "DEBUG false branch diverges instr=" ++ op.mnemonic

/-- The end of a check. It leaves a state behind also when it is refused. -/
structure Run (α : Type) where
  outcome : Outcome TypeError α
  state : State
  events : List Event

def Check (α : Type) := State → Run α

namespace Check

variable {α β : Type}

def run (m : Check α) (s : State) : Run α :=
  m s

instance : Monad Check where
  pure a := fun s => ⟨.ok a, s, []⟩
  bind m f := fun s =>
    match m s with
    | ⟨.ok a, s, events⟩ =>
      let rest := f a s
      { rest with events := events ++ rest.events }
    | ⟨.error e, s, events⟩ => ⟨.error e, s, events⟩

instance : LawfulMonad Check := LawfulMonad.mk' Check
  (by
    intro α m
    funext s
    simp only [Functor.map]
    rcases m s with ⟨_ | _, _, _⟩ <;> simp [Function.comp])
  (by
    intro α β a f
    funext s
    simp [pure, bind])
  (by
    intro α β γ m f g
    funext s
    simp only [bind]
    rcases m s with ⟨_ | a, s, events⟩
    · rfl
    · dsimp only
      rcases f a s with ⟨_ | b, s, events⟩ <;> simp)

def lift (x : Outcome TypeError α) : Check α :=
  fun s => ⟨x, s, []⟩

def refuse (e : TypeError) : Check α :=
  lift (.refuse e)

def emit (event : Event) : Check Unit :=
  fun s => ⟨.ok (), s, [event]⟩

def depth : Check Nat :=
  fun s => ⟨.ok s.context.depth, s, []⟩

/-- Work on the stack at hand. It reports nothing. -/
def edit (m : Edit α) : Check α :=
  fun s =>
    let (outcome, stack) := m.run s.stack
    ⟨outcome, { s with stack := stack }, []⟩

def visible : Check (List Ty) :=
  edit Edit.visible

def diverged : Check Bool :=
  edit (return (← Edit.stack).diverged)

def fork : Check Stack :=
  edit (return (← Edit.stack).fork)

def push (t : Ty) : Check Unit :=
  edit (Edit.push t)

def pop : Check Ty :=
  edit Edit.pop

/-- Run a check with the top `n` slots hidden; they are put back also when it is refused. -/
def protect (n : Nat) (body : Check α) : Check α :=
  fun s =>
    match (s.stack.hide n).mapError TypeError.ofTooShort with
    | .ok stack =>
      let inner := body { s with stack := stack }
      { inner with state := { inner.state with stack := inner.state.stack.restore } }
    | .error e => ⟨.error e, s, []⟩

/-- Run a check on another stack and return what becomes of that. -/
def onStack (stack : Stack) (body : Check Unit) : Check Stack :=
  fun s =>
    let inner := body { s with stack := stack }
    { outcome := inner.outcome.map fun _ => inner.state.stack
      state := { inner.state with stack := s.stack }
      events := inner.events }

/-- Run a check one scope deeper. Refused before anything is reported if the limit is reached; otherwise the scope is
left also when the check is refused. -/
def inScope (op : Opcode) (body : Check α) : Check α :=
  fun s =>
    if s.context.config.maxNestingDepth ≤ s.context.depth then
      refuse (.malformed op (.tooDeep s.context.config.maxNestingDepth)) s
    else
      let depth := s.context.depth + 1
      let inner := body { s with context := { s.context with depth := depth } }
      let context := inner.state.context
      { outcome := inner.outcome
        state := { inner.state with context := { context with depth := context.depth - 1 } }
        events := .entering op depth :: (inner.events ++ [.leaving op context.depth]) }

end Check

end Michelson

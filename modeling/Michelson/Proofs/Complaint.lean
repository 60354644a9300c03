import Michelson.Proofs.Rules

namespace Michelson

namespace Outcome

variable {ε α β : Type} {P : Failure ε → Prop}

def FailsBy (P : Failure ε → Prop) (o : Outcome ε α) : Prop :=
  ∀ f, o = .error f → P f

theorem FailsBy.ok (a : α) : FailsBy P (.ok a : Outcome ε α) := by
  intro f h
  cases h

theorem FailsBy.refuse {e : ε} (h : P (.error e)) : FailsBy P (.refuse e : Outcome ε α) := by
  intro f hf
  cases hf
  exact h

/-- Two decisions in a row fail as the first does, or as the second does after it. -/
theorem FailsBy.bind {o : Outcome ε α} {g : α → Outcome ε β} (ho : FailsBy P o)
    (hg : ∀ a, o = .ok a → FailsBy P (g a)) : FailsBy P (o >>= g) := by
  intro f hf
  cases o with
  | error =>
    cases hf
    exact ho f rfl
  | ok a => exact hg a rfl f hf

theorem FailsBy.mono {Q : Failure ε → Prop} {o : Outcome ε α} (ho : FailsBy P o)
    (h : ∀ f, P f → Q f) : FailsBy Q o :=
  fun f hf => h f (ho f hf)

theorem FailsBy.ite {p : Prop} [Decidable p] {a b : Outcome ε α} (ha : p → FailsBy P a)
    (hb : ¬p → FailsBy P b) : FailsBy P (if p then a else b) := by
  split
  · exact ha ‹_›
  · exact hb ‹_›

end Outcome

open Outcome (FailsBy)

def TypeError.opcode? : TypeError → Option Opcode
  | stackLength op .. => op
  | stackTop op .. | operand op .. | wrongForm op .. | malformed op .. | branches op ..
  | lambdaType op .. | mapKey op .. | mapValue op .. | setElement op .. => some op
  | literalType .. => some .push
  | contractResult .. => none

/-- What an instruction that finds so many slots can complain of, leaving aside the code nested in it. What is lacking or
does not match is part of the complaint. Only where there are as many slots as can be counted may one be missed without
notice, and only by `DIG` does that go as far as reading it. -/
inductive Complaint (op : Opcode) (length : Nat) : Failure TypeError → Prop where
  | stackLength {expected actual : Nat} : expected ≠ actual →
    Complaint op length (.error (.stackLength (some op) expected actual))
  | stackTop (expected actual : List Ty) : Complaint op length (.error (.stackTop op expected actual))
  | operand (accepted actual : List Ty) : Complaint op length (.error (.operand op accepted actual))
  | wrongForm (expected actual : Ty) : Complaint op length (.error (.wrongForm op expected actual))
  | malformed {why : Malformed} : (∀ limit, why ≠ .tooDeep limit) →
    Complaint op length (.error (.malformed op why))
  | branches {a b : List Ty} : slotsEqual a b = false → Conditional.isUnreached a = false →
    Conditional.isUnreached b = false → Complaint op length (.error (.branches op (.ofSlots a) (.ofSlots b)))
  | lambdaType {expected actual : Ty} : actual.equals expected = false →
    Complaint op length (.error (.lambdaType op expected actual))
  | mapKey {key k v : Ty} {map : Ty} : map = .map k v ∨ map = .bigMap k v → key.equals k = false →
    Complaint op length (.error (.mapKey op key map))
  | mapValue {value k v : Ty} {map : Ty} : map = .map k v ∨ map = .bigMap k v →
    Collection.isValueOf v value = false → Complaint op length (.error (.mapValue op value map))
  | setElement {element t : Ty} : element.equals t = false →
    Complaint op length (.error (.setElement op element (.set t)))
  | literalType {t : Ty} {l : Literal} : op = .push → Shuffle.fits t l = false →
    Complaint op length (.error (.literalType t l))
  | missed {expected actual : Nat} : Size.max ≤ length → expected ≠ actual →
    Complaint op length (.error (.stackLength none expected actual))
  | fault : op = .dig → Size.max ≤ length →
    Complaint op length (.fault (.missingSlot Size.max Size.max))

/-- What can be complained of on some slots can be complained of on more. -/
theorem Complaint.mono {op : Opcode} {m n : Nat} {f : Failure TypeError} (h : Complaint op m f)
    (hmn : m ≤ n) : Complaint op n f := by
  cases h with
  | stackLength h => exact .stackLength h
  | stackTop => exact .stackTop _ _
  | operand => exact .operand _ _
  | wrongForm => exact .wrongForm _ _
  | malformed h => exact .malformed h
  | branches h ha hb => exact .branches h ha hb
  | lambdaType h => exact .lambdaType h
  | mapKey hm h => exact .mapKey hm h
  | mapValue hm h => exact .mapValue hm h
  | setElement h => exact .setElement h
  | literalType ho h => exact .literalType ho h
  | missed hl h => exact .missed (Nat.le_trans hl hmn) h
  | fault hop hl => exact .fault hop (Nat.le_trans hl hmn)

def Failure.isMalformed : Failure TypeError → Bool
  | .error (.malformed ..) => true
  | _ => false

/-- What an instruction can complain of in the slots it finds or its bodies leave, not in how it is written. -/
def SlotComplaint (op : Opcode) (length : Nat) (f : Failure TypeError) : Prop :=
  Complaint op length f ∧ f.isMalformed = false

namespace Operand

variable {op : Opcode} {length : Nat} (args : List Operand) (index : Nat)

/-- A wrong number of arguments is a complaint about the form of an instruction. -/
theorem failsBy_count : FailsBy (Complaint op length) (count op args) := by
  unfold count
  split
  · exact .ite (fun _ => .refuse (.malformed nofun)) fun _ => .ok ()
  · exact .ok ()

theorem failsBy_typeAt : FailsBy (Complaint op length) (typeAt op args index) := by
  unfold typeAt
  split
  · exact .ok _
  · exact .refuse (.malformed nofun)

theorem failsBy_codeAt : FailsBy (Complaint op length) (codeAt op args index) := by
  unfold codeAt
  split
  · exact .ok _
  · exact .refuse (.malformed nofun)

/-- A number that is missing, below zero or too large is a complaint about the form of an instruction. -/
theorem failsBy_natAt : FailsBy (Complaint op length) (natAt op args index) := by
  unfold natAt
  split
  · exact .ite (fun _ => .ok _) fun _ => .refuse (.malformed nofun)
  · exact .refuse (.malformed nofun)

/-- A conditional without two bodies is a complaint about the form of an instruction. -/
theorem failsBy_branches (c : Conditional) :
    FailsBy (Complaint c.opcode length) (c.branches args) := by
  refine .ite (fun _ => .refuse (.malformed nofun)) fun _ => ?_
  exact (failsBy_codeAt args 0).bind fun a _ => (failsBy_codeAt args 1).bind fun b _ => .ok (a, b)

theorem failsBy_dipOperands : FailsBy (Complaint .dip length) (Check.dipOperands args) := by
  unfold Check.dipOperands
  split
  · exact (failsBy_natAt _ 0).bind fun n _ => (failsBy_codeAt _ 1).bind fun body _ => .ok (n, body)
  · exact (failsBy_codeAt _ 0).bind fun body _ => .ok (1, body)

end Operand

end Michelson

import Michelson.Opcode

namespace Michelson

inductive Literal where
  | int (n : Int)
  | string (s : String)
  | bool (b : Bool)
  | bytes (bs : List UInt8)
  | unit
  deriving DecidableEq, Repr

mutual

/-- The type of a stack slot. `universal` is the type of a value that is never reached, and `var` stands for any type
in a diagnostic. -/
inductive Ty where
  | unit | bool | int | nat | mutez | string | bytes | address | timestamp | operation
  | option (t : Ty)
  | or (left right : Ty)
  | pair (left right : Ty)
  | list (t : Ty)
  | set (t : Ty)
  | map (key value : Ty)
  | bigMap (key value : Ty)
  | contract (t : Ty)
  | lambda (f : Lambda)
  | record (r : Record)
  | universal
  | var (name : String)

/-- A lambda type, with the body it was made from and the arguments already applied to it, oldest first. -/
structure Lambda where
  arg : Ty
  ret : Ty
  body : List Instr
  applied : List Ty

/-- A named tuple type. It stands for the right comb of its field types. -/
structure Record where
  name : String
  fields : List Field

structure Field where
  name : String
  type : Ty

inductive Arg where
  | code (body : List Instr)
  | type (t : Ty)
  | literal (l : Literal)

/-- An instruction: an opcode and its arguments, which need not suit it. -/
structure Instr where
  opcode : Opcode
  args : List Arg

end

structure Contract where
  parameter : Ty
  storage : Ty
  code : List Instr

def Ty.function (arg ret : Ty) (body : List Instr) : Ty :=
  .lambda ⟨arg, ret, body, []⟩

def Arg.ofInt (n : Int) : Arg :=
  .literal (.int n)

def Arg.ofString (s : String) : Arg :=
  .literal (.string s)

def Arg.ofBool (b : Bool) : Arg :=
  .literal (.bool b)

mutual

def Ty.same : Ty → Ty → Bool
  | .unit, .unit | .bool, .bool | .int, .int | .nat, .nat | .mutez, .mutez => true
  | .string, .string | .bytes, .bytes | .address, .address | .timestamp, .timestamp => true
  | .operation, .operation | .universal, .universal => true
  | .option a, .option b | .list a, .list b | .set a, .set b | .contract a, .contract b => a.same b
  | .or a₁ a₂, .or b₁ b₂ | .pair a₁ a₂, .pair b₁ b₂ => a₁.same b₁ && a₂.same b₂
  | .map a₁ a₂, .map b₁ b₂ | .bigMap a₁ a₂, .bigMap b₁ b₂ => a₁.same b₁ && a₂.same b₂
  | .lambda a, .lambda b => a.same b
  | .record a, .record b => a.same b
  | .var a, .var b => a == b
  | _, _ => false

def Lambda.same : Lambda → Lambda → Bool
  | ⟨arg₁, ret₁, body₁, applied₁⟩, ⟨arg₂, ret₂, body₂, applied₂⟩ =>
    arg₁.same arg₂ && ret₁.same ret₂ && sameCode body₁ body₂ && sameTypes applied₁ applied₂

def Record.same : Record → Record → Bool
  | ⟨name₁, fields₁⟩, ⟨name₂, fields₂⟩ => name₁ == name₂ && sameFields fields₁ fields₂

def Field.same : Field → Field → Bool
  | ⟨name₁, type₁⟩, ⟨name₂, type₂⟩ => name₁ == name₂ && type₁.same type₂

def Arg.same : Arg → Arg → Bool
  | .code a, .code b => sameCode a b
  | .type a, .type b => a.same b
  | .literal a, .literal b => a == b
  | _, _ => false

def Instr.same : Instr → Instr → Bool
  | ⟨op₁, args₁⟩, ⟨op₂, args₂⟩ => op₁ == op₂ && sameArgs args₁ args₂

def sameTypes : List Ty → List Ty → Bool
  | [], [] => true
  | a :: as, b :: bs => a.same b && sameTypes as bs
  | _, _ => false

def sameFields : List Field → List Field → Bool
  | [], [] => true
  | a :: as, b :: bs => a.same b && sameFields as bs
  | _, _ => false

def sameArgs : List Arg → List Arg → Bool
  | [], [] => true
  | a :: as, b :: bs => a.same b && sameArgs as bs
  | _, _ => false

def sameCode : List Instr → List Instr → Bool
  | [], [] => true
  | a :: as, b :: bs => a.same b && sameCode as bs
  | _, _ => false

end

mutual

theorem Ty.same_iff : ∀ a b : Ty, a.same b ↔ a = b
  | .option a, b | .list a, b | .set a, b | .contract a, b => by
    have h := Ty.same_iff a
    cases b <;> simp [Ty.same, h]
  | .or a₁ a₂, b | .pair a₁ a₂, b | .map a₁ a₂, b | .bigMap a₁ a₂, b => by
    have h₁ := Ty.same_iff a₁
    have h₂ := Ty.same_iff a₂
    cases b <;> simp [Ty.same, h₁, h₂]
  | .lambda f, b => by
    have h := Lambda.same_iff f
    cases b <;> simp [Ty.same, h]
  | .record r, b => by
    have h := Record.same_iff r
    cases b <;> simp [Ty.same, h]
  | .unit, b | .bool, b | .int, b | .nat, b | .mutez, b | .string, b | .bytes, b | .address, b
  | .timestamp, b | .operation, b | .universal, b | .var _, b => by
    cases b <;> simp [Ty.same]

theorem Lambda.same_iff : ∀ a b : Lambda, a.same b ↔ a = b
  | ⟨arg, ret, body, applied⟩, ⟨arg', ret', body', applied'⟩ => by
    simp [Lambda.same, Ty.same_iff arg arg', Ty.same_iff ret ret', sameCode_iff body body',
      sameTypes_iff applied applied', and_assoc]

theorem Record.same_iff : ∀ a b : Record, a.same b ↔ a = b
  | ⟨_, fields⟩, ⟨_, fields'⟩ => by simp [Record.same, sameFields_iff fields fields']

theorem Field.same_iff : ∀ a b : Field, a.same b ↔ a = b
  | ⟨_, type⟩, ⟨_, type'⟩ => by simp [Field.same, Ty.same_iff type type']

theorem Arg.same_iff : ∀ a b : Arg, a.same b ↔ a = b
  | .code body, b => by
    have h := sameCode_iff body
    cases b <;> simp [Arg.same, h]
  | .type t, b => by
    have h := Ty.same_iff t
    cases b <;> simp [Arg.same, h]
  | .literal _, b => by cases b <;> simp [Arg.same]

theorem Instr.same_iff : ∀ a b : Instr, a.same b ↔ a = b
  | ⟨_, args⟩, ⟨_, args'⟩ => by simp [Instr.same, sameArgs_iff args args']

theorem sameTypes_iff : ∀ as bs : List Ty, sameTypes as bs ↔ as = bs
  | [], bs => by cases bs <;> simp [sameTypes]
  | a :: as, bs => by
    have h := Ty.same_iff a
    have hs := sameTypes_iff as
    cases bs <;> simp [sameTypes, h, hs]

theorem sameFields_iff : ∀ as bs : List Field, sameFields as bs ↔ as = bs
  | [], bs => by cases bs <;> simp [sameFields]
  | a :: as, bs => by
    have h := Field.same_iff a
    have hs := sameFields_iff as
    cases bs <;> simp [sameFields, h, hs]

theorem sameArgs_iff : ∀ as bs : List Arg, sameArgs as bs ↔ as = bs
  | [], bs => by cases bs <;> simp [sameArgs]
  | a :: as, bs => by
    have h := Arg.same_iff a
    have hs := sameArgs_iff as
    cases bs <;> simp [sameArgs, h, hs]

theorem sameCode_iff : ∀ as bs : List Instr, sameCode as bs ↔ as = bs
  | [], bs => by cases bs <;> simp [sameCode]
  | a :: as, bs => by
    have h := Instr.same_iff a
    have hs := sameCode_iff as
    cases bs <;> simp [sameCode, h, hs]

end

instance : DecidableEq Ty := fun a b => decidable_of_iff _ (Ty.same_iff a b)

instance : DecidableEq Arg := fun a b => decidable_of_iff _ (Arg.same_iff a b)

instance : DecidableEq Instr := fun a b => decidable_of_iff _ (Instr.same_iff a b)

end Michelson

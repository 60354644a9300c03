import Michelson.Ty.Shape

namespace Michelson

mutual

/-- A size under which a record is larger than its shape. -/
def Ty.weight : Ty → Nat
  | .option t | .list t | .set t | .contract t => 1 + t.weight
  | .or l r | .pair l r | .map l r | .bigMap l r => 1 + l.weight + r.weight
  | .lambda ⟨arg, ret, _, _⟩ => 1 + arg.weight + ret.weight
  | .record ⟨_, fields⟩ => 2 + fieldsWeight fields
  | _ => 1

def fieldsWeight : List Field → Nat
  | [] => 0
  | ⟨_, t⟩ :: rest => 1 + t.weight + fieldsWeight rest

end

theorem Ty.weight_lambda (f : Lambda) :
    (Ty.lambda f).weight = 1 + f.arg.weight + f.ret.weight := by
  cases f
  rw [Ty.weight]

theorem Ty.weight_record (r : Record) : (Ty.record r).weight = 2 + fieldsWeight r.fields := by
  cases r
  rw [Ty.weight]

theorem fieldsWeight_cons (f : Field) (fs : List Field) :
    fieldsWeight (f :: fs) = 1 + f.type.weight + fieldsWeight fs := by
  cases f
  rw [fieldsWeight]

mutual

theorem Ty.weight_simplify_le : ∀ t : Ty, t.simplify.weight ≤ t.weight
  | .record ⟨_, fields⟩ => by
    have := weight_simplifyFields_le fields
    simp only [Ty.simplify, Ty.weight]
    omega
  | .pair l r => by
    have := l.weight_simplify_le
    have := r.weight_simplify_le
    simp only [Ty.simplify, Ty.weight]
    omega
  | .unit | .bool | .int | .nat | .mutez | .string | .bytes | .address | .timestamp | .operation
  | .option _ | .or _ _ | .list _ | .set _ | .map _ _ | .bigMap _ _ | .contract _ | .lambda _
  | .universal | .var _ => by simp [Ty.simplify]

theorem weight_simplifyFields_le :
    ∀ fields : List Field, (simplifyFields fields).weight ≤ 1 + fieldsWeight fields
  | [] => by simp [simplifyFields, Ty.weight, fieldsWeight]
  | [⟨_, t⟩] => by
    have := t.weight_simplify_le
    simp only [simplifyFields, fieldsWeight]
    omega
  | ⟨_, t⟩ :: f :: rest => by
    have := t.weight_simplify_le
    have := weight_simplifyFields_le (f :: rest)
    rw [fieldsWeight]
    simp only [simplifyFields, Ty.weight]
    omega

end

/-- What a record stands for weighs less than the record. -/
theorem Ty.weight_simplify_record (r : Record) :
    (Ty.record r).simplify.weight < (Ty.record r).weight := by
  obtain ⟨name, fields⟩ := r
  have := weight_simplifyFields_le fields
  simp only [Ty.simplify, Ty.weight]
  omega

mutual

/-- Equality as the checker sees it: `universal` equals everything, records agree by field names and types, a record
agrees with another type by its shape, and lambdas agree by argument and result only. -/
def Ty.equals (a b : Ty) : Bool :=
  match a, b with
  | .universal, _ | _, .universal => true
  | .record r, .record s => fieldsEqual r.fields s.fields
  | .record r, b => (Ty.record r).simplify.equals b
  | a, .record s => a.equals (Ty.record s).simplify
  | .unit, .unit | .bool, .bool | .int, .int | .nat, .nat | .mutez, .mutez => true
  | .string, .string | .bytes, .bytes | .address, .address | .timestamp, .timestamp => true
  | .operation, .operation => true
  | .option a, .option b | .list a, .list b | .set a, .set b | .contract a, .contract b => a.equals b
  | .or a₁ a₂, .or b₁ b₂ | .pair a₁ a₂, .pair b₁ b₂ => a₁.equals b₁ && a₂.equals b₂
  | .map a₁ a₂, .map b₁ b₂ | .bigMap a₁ a₂, .bigMap b₁ b₂ => a₁.equals b₁ && a₂.equals b₂
  | .lambda f, .lambda g => f.arg.equals g.arg && f.ret.equals g.ret
  | .var a, .var b => a == b
  | _, _ => false
termination_by a.weight + b.weight
decreasing_by
  · simp only [Ty.weight_record]
    omega
  · have := Ty.weight_simplify_record r
    omega
  · have := Ty.weight_simplify_record s
    omega
  all_goals
    simp only [Ty.weight, Ty.weight_lambda]
    omega

def fieldsEqual (fs gs : List Field) : Bool :=
  match fs, gs with
  | [], [] => true
  | f :: fs, g :: gs => f.name == g.name && f.type.equals g.type && fieldsEqual fs gs
  | _, _ => false
termination_by fieldsWeight fs + fieldsWeight gs
decreasing_by
  all_goals
    simp only [fieldsWeight_cons]
    omega

end

end Michelson

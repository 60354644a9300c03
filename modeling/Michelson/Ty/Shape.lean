import Michelson.Ty.Comb

namespace Michelson

/-- The comb of the field types; a record without fields stands for `unit`. -/
def Record.shape (r : Record) : Ty :=
  (Ty.combFromLast? (r.fields.map (·.type))).getD .unit

theorem Record.shape_eq (r : Record) : r.shape = (Ty.comb? (r.fields.map (·.type))).getD .unit := by
  rw [shape, Ty.comb?_eq_combFromLast?]

mutual

/-- Unfold the records at the root of a type and those reached from it through pairs only. -/
def Ty.simplify : Ty → Ty
  | .record ⟨_, fields⟩ => simplifyFields fields
  | .pair l r => .pair l.simplify r.simplify
  | t => t

def simplifyFields : List Field → Ty
  | [] => .unit
  | [⟨_, t⟩] => t.simplify
  | ⟨_, t⟩ :: rest => .pair t.simplify (simplifyFields rest)

end

theorem simplifyFields_eq (fields : List Field) :
    simplifyFields fields = ((Ty.comb? (fields.map (·.type))).getD .unit).simplify := by
  induction fields with
  | nil => simp [simplifyFields, Ty.comb?, Ty.simplify]
  | cons f rest ih =>
    obtain ⟨name, t⟩ := f
    cases rest with
    | nil => simp [simplifyFields, Ty.comb?]
    | cons g gs =>
      have hs : ((g :: gs).map (·.type)) ≠ [] := by simp
      obtain ⟨c, hc⟩ := Option.isSome_iff_exists.mp (Ty.comb?_isSome hs)
      rw [hc] at ih
      rw [List.map_cons, Ty.comb?, hc, simplifyFields, ih]
      · simp [Ty.simplify]
      · simp
      · simp

/-- Simplifying a record simplifies its shape. -/
theorem Ty.simplify_record (r : Record) : (Ty.record r).simplify = r.shape.simplify := by
  rw [Record.shape_eq]
  obtain ⟨name, fields⟩ := r
  rw [Ty.simplify, simplifyFields_eq]

/-- The two components of a pair, or of a record that stands for one. -/
def Ty.split? : Ty → Option (Ty × Ty)
  | .pair l r => some (l, r)
  | .record r =>
    match r.shape with
    | .pair l r => some (l, r)
    | _ => none
  | _ => none

end Michelson

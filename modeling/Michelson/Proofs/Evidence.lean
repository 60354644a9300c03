import Michelson.Proofs.Congruence

namespace Michelson

inductive LiteralKind where
  | int | string | bool | bytes | unit
  deriving DecidableEq

def Literal.kind : Literal → LiteralKind
  | .int _ => .int
  | .string _ => .string
  | .bool _ => .bool
  | .bytes _ => .bytes
  | .unit => .unit

/-- The literals that can be pushed as values of a type. -/
def Ty.literalKinds : Ty → List LiteralKind
  | .int | .nat | .mutez => [.int]
  | .timestamp => [.int, .string]
  | .string | .address => [.string]
  | .bool => [.bool]
  | .bytes => [.bytes]
  | .unit => [.unit]
  | _ => []

/-- A literal can be pushed exactly as one of the kinds that its type takes. -/
theorem Shuffle.fits_iff (t : Ty) (l : Literal) : fits t l = true ↔ l.kind ∈ t.literalKinds := by
  cases t <;> cases l <;> simp [fits, Literal.kind, Ty.literalKinds]

/-- What an error carries shows that it is right. The branches of a conditional end with stacks of their own, which hide
no slots. Only a contract as a whole is refused for its result, never code. -/
def TypeError.Evident : TypeError → Prop
  | stackLength _ expected actual => expected ≠ actual
  | branches _ onTrue onFalse =>
    onTrue.equals onFalse = false ∧ onTrue.visible.head? ≠ some .universal ∧
      onFalse.visible.head? ≠ some .universal ∧ onTrue.frames = [] ∧ onFalse.frames = []
  | mapKey _ key map => ∃ k v, (map = .map k v ∨ map = .bigMap k v) ∧ k.equals key = false
  | mapValue _ value map =>
    ∃ k v, (map = .map k v ∨ map = .bigMap k v) ∧ ∀ t, value = .option t → t.equals v = false
  | setElement _ element set => ∃ t, set = .set t ∧ t.equals element = false
  | lambdaType _ expected actual => actual.equals expected = false
  | literalType type literal => literal.kind ∉ type.literalKinds
  | contractResult .. => False
  | stackTop .. | operand .. | wrongForm .. | malformed .. => True

theorem Ty.equals_eq_false_symm {a b : Ty} (h : a.equals b = false) : b.equals a = false := by
  rw [Bool.eq_false_iff] at h ⊢
  exact fun hba => h (Ty.equals_symm hba)

theorem Collection.ne_of_isValueOf_eq_false {v value : Ty} (h : isValueOf v value = false) (t : Ty)
    (ht : value = .option t) : t.equals v = false := by
  subst ht
  exact h

theorem Conditional.head?_ne_of_isUnreached_eq_false {slots : List Ty}
    (h : Conditional.isUnreached slots = false) : slots.head? ≠ some .universal := by
  intro hs
  obtain ⟨rest, rfl⟩ := List.head?_eq_some_iff.mp hs
  cases h

/-- Every complaint of an instruction carries what shows that it is right. -/
theorem Complaint.evident {op : Opcode} {length : Nat} {e : TypeError}
    (h : Complaint op length (.error e)) : e.Evident := by
  cases h with
  | stackLength h => exact h
  | stackTop | operand | wrongForm | malformed => trivial
  | branches h ha hb =>
    exact ⟨h, Conditional.head?_ne_of_isUnreached_eq_false ha,
      Conditional.head?_ne_of_isUnreached_eq_false hb, rfl, rfl⟩
  | lambdaType h => exact h
  | mapKey hm h => exact ⟨_, _, hm, Ty.equals_eq_false_symm h⟩
  | mapValue hm h => exact ⟨_, _, hm, Collection.ne_of_isValueOf_eq_false h⟩
  | setElement h => exact ⟨_, rfl, Ty.equals_eq_false_symm h⟩
  | literalType _ h =>
    intro hk
    rw [← Shuffle.fits_iff, h] at hk
    cases hk
  | missed _ h => exact h

/-- A complaint bears the name of the instruction, except for a slot that is missed. -/
theorem Complaint.opcode?_eq {op : Opcode} {length : Nat} {e : TypeError}
    (h : Complaint op length (.error e)) :
    e.opcode? = some op ∨ e.opcode? = none ∧ Size.max ≤ length := by
  cases h with
  | missed hl => exact .inr ⟨rfl, hl⟩
  | literalType hop => exact .inl (congrArg some hop.symm)
  | _ => exact .inl rfl

/-- If code is refused, the error carries what shows it to be right, and it names an instruction of the code. It could
fail to name one only where there may be more slots than can be counted. -/
theorem refused_with_evidence (code : List Instr) (s : State) (e : TypeError)
    (h : ((checkCode code).run s).outcome = .refuse e) :
    e.Evident ∧ e.kind ≠ .contractResult ∧
      ((∃ i : Instr, i.OccursIn code ∧ e.opcode? = some i.opcode) ∨
        e.opcode? = none ∧ Size.max ≤ s.stack.visible.length + codeSize code) := by
  have hr := (Check.rule_eq_error_iff (checkCode_confined code)).mpr h
  obtain ⟨i, hi, hc | ⟨limit, hf⟩⟩ := (failsAt_checkCode code _ _ _ hr).exists_instr
  · refine ⟨hc.evident, ?_, hc.opcode?_eq.imp_left fun hop => ⟨i, hi, hop⟩⟩
    intro hk
    cases hc <;> cases hk
  · cases hf
    exact ⟨trivial, nofun, .inl ⟨i, hi, rfl⟩⟩

/-- A lambda that takes a record is given a record with a component of another type, in code that is nested in a dip. -/
theorem refused_with_evidence_exec :
    let point (x : Ty) : Ty := .record ⟨"point", [⟨"x", x⟩, ⟨"y", .int⟩]⟩
    let code : List Instr := [⟨.dip, [.code [⟨.exec, []⟩]]⟩]
    let slots : List Ty := [.unit, point .nat, .function (point .int) .unit []]
    let run := (checkCode code).run ⟨⟨⟨1⟩, 0⟩, .ofSlots slots⟩
    run.outcome = .refuse (.lambdaType .exec (point .int) (point .nat)) ∧
      (point .nat).equals (point .int) = false ∧
      ∃ i : Instr, i.OccursIn code ∧ i.opcode = .exec := by
  intro point code slots run
  have hrun : run.outcome = .refuse (.lambdaType .exec (point .int) (point .nat)) := by
    simp only [run, slots, point]
    cbv
  obtain ⟨hevident, -, ⟨i, hi, hop⟩ | ⟨hnone, -⟩⟩ := refused_with_evidence code _ _ hrun
  · exact ⟨hrun, hevident, i, hi, (Option.some.inj hop).symm⟩
  · cases hnone

end Michelson

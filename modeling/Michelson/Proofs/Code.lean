import Michelson.Typing

namespace Michelson

namespace Outcome

variable {ε α β : Type}

/-- Two decisions in a row succeed if the first does and the second does with its result. -/
theorem bind_eq_ok {x : Outcome ε α} {f : α → Outcome ε β} {b : β} :
    (x >>= f) = .ok b ↔ ∃ a, x = .ok a ∧ f a = .ok b := by
  cases x <;> simp

/-- What follows matters only on results that are had. -/
theorem bind_congr {x : Outcome ε α} {f g : α → Outcome ε β} (h : ∀ a, x = .ok a → f a = g a) :
    (x >>= f) = (x >>= g) := by
  cases x with
  | error e => rfl
  | ok a => exact h a rfl

end Outcome

theorem isDiverged_iff {slots : List Ty} : isDiverged slots = true ↔ slots = [.universal] := by
  unfold isDiverged
  split <;> simp_all

/-- A body that is found among the arguments is one of them. -/
theorem Operand.mem_of_codeAt {op : Opcode} {args : List Operand} {index : Nat} {body : Body}
    (h : codeAt op args index = .ok body) : .code body ∈ args := by
  unfold codeAt at h
  split at h
  · rename_i found hf
    cases h
    exact List.mem_of_getElem? hf
  · cases h

theorem Operand.mem_of_typeAt {op : Opcode} {args : List Operand} {index : Nat} {t : Ty}
    (h : typeAt op args index = .ok t) : .type t ∈ args := by
  unfold typeAt at h
  split at h
  · rename_i found hf
    cases h
    exact List.mem_of_getElem? hf
  · cases h

/-- A number that is read is no larger than the largest size. -/
theorem Operand.natAt_le {op : Opcode} {args : List Operand} {index n : Nat}
    (h : natAt op args index = .ok n) : n ≤ Size.max := by
  unfold natAt at h
  split at h
  · split at h
    · cases h
      assumption
    · cases h
  · cases h

theorem Conditional.mem_of_branches {c : Conditional} {args : List Operand} {a b : Body}
    (h : c.branches args = .ok (a, b)) : .code a ∈ args ∧ .code b ∈ args := by
  unfold branches at h
  split at h
  · cases h
  · obtain ⟨_, ha, h⟩ := Outcome.bind_eq_ok.mp h
    obtain ⟨_, hb, h⟩ := Outcome.bind_eq_ok.mp h
    cases h
    exact ⟨Operand.mem_of_codeAt ha, Operand.mem_of_codeAt hb⟩

theorem Check.mem_of_dipOperands {args : List Operand} {n : Nat} {body : Body}
    (h : dipOperands args = .ok (n, body)) : .code body ∈ args := by
  unfold dipOperands at h
  split at h
  · obtain ⟨_, -, h⟩ := Outcome.bind_eq_ok.mp h
    obtain ⟨_, hc, h⟩ := Outcome.bind_eq_ok.mp h
    cases h
    exact Operand.mem_of_codeAt hc
  · obtain ⟨_, hc, h⟩ := Outcome.bind_eq_ok.mp h
    cases h
    exact Operand.mem_of_codeAt hc

/-- The body of an operand is a code argument, with the check of it. -/
theorem mem_operands {body : Body} :
    ∀ {args : List Arg}, Operand.code body ∈ operands args →
      body.check = checkCode body.code ∧ Arg.code body.code ∈ args
  | [], h => by simp [operands] at h
  | arg :: args, h => by
    rw [operands] at h
    rcases List.mem_cons.mp h with h | h
    · cases arg with
      | code code =>
        simp only [Arg.operand, Operand.code.injEq] at h
        exact h ▸ ⟨rfl, List.mem_cons_self⟩
      | type t => simp [Arg.operand] at h
      | literal l => simp [Arg.operand] at h
    · obtain ⟨hc, hm⟩ := mem_operands h
      exact ⟨hc, List.mem_cons_of_mem _ hm⟩

theorem type_mem_operands {t : Ty} :
    ∀ {args : List Arg}, Operand.type t ∈ operands args → Arg.type t ∈ args
  | [], h => by simp [operands] at h
  | arg :: args, h => by
    rw [operands] at h
    rcases List.mem_cons.mp h with h | h
    · cases arg with
      | code code => simp [Arg.operand] at h
      | type u =>
        simp only [Arg.operand, Operand.type.injEq] at h
        exact h ▸ List.mem_cons_self
      | literal l => simp [Arg.operand] at h
    · exact List.mem_cons_of_mem _ (type_mem_operands h)

mutual

/-- To show a property of all code, show it of an instruction followed by code that has it, when the code nested in the
instruction has it. -/
theorem code_induction {motive : List Instr → Prop} (nil : motive [])
    (cons : ∀ op args rest, (∀ body, Arg.code body ∈ args → motive body) → motive rest →
      motive (⟨op, args⟩ :: rest)) : ∀ code, motive code
  | [] => nil
  | ⟨op, args⟩ :: rest =>
    cons op args rest (nested_induction nil cons args) (code_induction nil cons rest)

/-- The part of the induction for the code among some arguments. -/
theorem nested_induction {motive : List Instr → Prop} (nil : motive [])
    (cons : ∀ op args rest, (∀ body, Arg.code body ∈ args → motive body) → motive rest →
      motive (⟨op, args⟩ :: rest)) :
    ∀ (args : List Arg) (body : List Instr), Arg.code body ∈ args → motive body
  | [], _, h => nomatch h
  | .code code :: args, body, h => by
    rcases List.mem_cons.mp h with h | h
    · cases h
      exact code_induction nil cons code
    · exact nested_induction nil cons args body h
  | .type _ :: args, body, h | .literal _ :: args, body, h =>
    nested_induction nil cons args body (by simpa using h)

end

end Michelson

import Michelson.Proofs.Causes

namespace Michelson

section

variable {ε : Type}

/-- A slot cannot be read exactly where it is not there. -/
theorem Stack.slot_stops_iff (s : Stack) (depth : Nat) :
    (∃ f, (s.slot depth : Outcome ε Ty) = .stop f) ↔ s.length ≤ depth := by
  rw [slot_eq]
  constructor
  · rintro ⟨f, hf⟩
    apply Nat.le_of_not_lt
    intro hlt
    rw [slotAt_of_lt hlt] at hf
    cases hf
  · intro hge
    exact ⟨_, slotAt_of_ge hge⟩

/-- A slot cannot be written exactly where it is not there. -/
theorem Stack.setSlot_stops_iff (s : Stack) (depth : Nat) (t : Ty) :
    (∃ f, (s.setSlot depth t : Outcome ε Stack) = .stop f) ↔ s.length ≤ depth := by
  constructor
  · rintro ⟨f, hf⟩
    apply Nat.le_of_not_lt
    intro hlt
    rw [setSlot_of_lt hlt] at hf
    cases hf
  · intro hge
    rw [setSlot, position_of_ge hge]
    exact ⟨_, rfl⟩

/-- A size cannot be subtracted exactly where the difference would be below zero. -/
theorem Size.minus_stops_iff (fault : Fault) (m n : Nat) :
    (minus fault m n : Outcome ε Nat) = .stop fault ↔ m < n := by
  constructor
  · intro h
    apply Nat.lt_of_not_le
    intro hle
    rw [minus_of_le hle] at h
    cases h
  · exact minus_of_lt

end

/-- Of all faults only one can arise, and only where there may be as many slots as can be counted. -/
theorem eq_missingSlot_of_stop {code : List Instr} {s : State} {f : Fault}
    (h : ((checkCode code).run s).outcome = .stop f) :
    f = .missingSlot Size.max Size.max ∧ (∃ i : Instr, i.OccursIn code ∧ i.opcode = .dig) ∧
      Size.max ≤ s.stack.visible.length + codeSize code := by
  have hr := (Check.rule_eq_error_iff (checkCode_confined code)).mpr h
  obtain ⟨i, hi, hc | ⟨limit, hf⟩⟩ := (failsAt_checkCode code _ _ _ hr).exists_instr
  · cases hc with
    | fault hop hl => exact ⟨rfl, ⟨i, hi, hop⟩, hl⟩
  · cases hf

/-- Code is accepted or refused with an error, on every stack and whatever its arguments are: no slot is missed that was
counted on, nothing is subtracted from too little, and no place is reached that no code should reach. The only fault that
can arise takes more slots than any memory holds, for a `DIG` as deep as can be counted. None of this is for want of
faults: a slot read or written where there is none, and a difference below zero, always give one. -/
theorem check_never_faults (code : List Instr) (s : State) :
    let outcome := ((checkCode code).run s).outcome
    (s.stack.visible.length + codeSize code < Size.max →
      outcome = .ok () ∨ ∃ e, outcome = .refuse e) ∧
    (∀ f, outcome = .stop f → f = .missingSlot Size.max Size.max ∧
      (∃ i : Instr, i.OccursIn code ∧ i.opcode = .dig) ∧
      Size.max ≤ s.stack.visible.length + codeSize code) ∧
    (∀ (stack : Stack) (depth : Nat) (t : Ty),
      ((∃ f, (stack.slot depth : Outcome TypeError Ty) = .stop f) ↔ stack.length ≤ depth) ∧
      ((∃ f, (stack.setSlot depth t : Outcome TypeError Stack) = .stop f) ↔
        stack.length ≤ depth)) ∧
    ∀ (fault : Fault) (m n : Nat), (Size.minus fault m n : Outcome TypeError Nat) = .stop fault ↔
      m < n := by
  refine ⟨fun hlen => ?_, fun f hf => eq_missingSlot_of_stop hf,
    fun stack depth t => ⟨stack.slot_stops_iff depth, stack.setSlot_stops_iff depth t⟩,
    Size.minus_stops_iff⟩
  cases ho : ((checkCode code).run s).outcome with
  | ok => exact .inl rfl
  | error failure =>
    cases failure with
    | error e => exact .inr ⟨e, rfl⟩
    | fault f =>
      obtain ⟨-, -, hmax⟩ := eq_missingSlot_of_stop ho
      omega

/-- Below a slot that is set aside, a `DIG` as deep as can be counted is refused. -/
theorem check_never_faults_dig_in_dip :
    let far : Instr := ⟨.dig, [.literal (.int 18446744073709551615)]⟩
    let code : List Instr := [⟨.dip, [.code [far]]⟩]
    let s : State := ⟨⟨⟨8⟩, 0⟩, ⟨[.unit, .int], [[.nat]]⟩⟩
    let outcome := ((checkCode code).run s).outcome
    s.stack.visible.length + codeSize code < Size.max ∧ outcome ≠ .ok () ∧
      ∃ e, outcome = .refuse e := by
  intro far code s outcome
  have hlen : s.stack.visible.length + codeSize code < Size.max := by
    simp [s, code, far, codeSize, Instr.size, argsSize, Size.max]
  have hrefused : outcome ≠ .ok () := by
    have ho : outcome = .refuse (.stackLength (some .dig) 18446744073709551615 1) := by
      simp only [outcome, s, code, far]
      cbv
    rw [ho]
    intro h
    cases h
  obtain ⟨hanswer, -⟩ := check_never_faults code s
  exact ⟨hlen, hrefused, (hanswer hlen).resolve_left hrefused⟩

end Michelson

import Michelson.Proofs.Components
import Michelson.Proofs.Dip

namespace Michelson

def Instr.dig (n : Nat) : Instr :=
  ⟨.dig, [.ofInt n]⟩

def Instr.dug (n : Nat) : Instr :=
  ⟨.dug, [.ofInt n]⟩

def Instr.swap : Instr :=
  ⟨.swap, []⟩

def LacksSlots {α : Type} (o : Outcome TypeError α) : Prop :=
  ∃ e : TypeError, o = .refuse e ∧ e.kind = .stackLength

theorem LacksSlots.bind {α β : Type} {o : Outcome TypeError α} (h : LacksSlots o)
    (f : α → Outcome TypeError β) : LacksSlots (o >>= f) := by
  obtain ⟨e, rfl, hkind⟩ := h
  exact ⟨e, rfl, hkind⟩

/-- Two ways to come to the same slots, or to lack some. -/
def SameOrShort (o o' : Outcome TypeError (List Ty)) : Prop :=
  (∃ out, o = .ok out ∧ o' = .ok out) ∨ LacksSlots o ∧ LacksSlots o'

theorem Rule.lacksSlots_dip {n : Nat} {slots : List Ty} {body : Rule}
    (h : n ≤ slots.length → LacksSlots (body (slots.drop n))) : LacksSlots (dip n body slots) := by
  by_cases hn : slots.length < n
  · rw [dip, require_of_lt .dip hn]
    exact ⟨_, rfl, rfl⟩
  · rw [dip_of_le (Nat.not_lt.mp hn)]
    exact (h (Nat.not_lt.mp hn)).bind _

namespace Action

open Rule (dip dip_one_of_ok andThen_of_ok lacksSlots_dip)

/-- Too few slots are noticed, unless there are as many as can be counted: these pass for one more. -/
theorem lacksSlots_dig {n : Nat} {slots : List Ty} (h : slots.length ≤ n)
    (hmax : slots.length < Size.max) : LacksSlots ((dig n).rule .dig slots) := by
  have hshort : slots.length < Size.succ n := Nat.lt_min.mpr ⟨Nat.lt_succ_of_le h, hmax⟩
  exact ⟨_, rule_of_lt .dig hshort, rfl⟩

/-- As many slots as can be counted are one too few for the deepest `DIG`, which does not notice. -/
theorem dig_of_max {slots : List Ty} (h : slots.length = Size.max) :
    (dig Size.max).rule .dig slots = .stop (.missingSlot Size.max Size.max) := by
  have hpasses : (dig Size.max).needed ≤ slots.length := by
    rw [h]
    exact Nat.min_le_right _ _
  rw [rule_of_le .dig hpasses]
  simp only [dig, List.take_of_length_le (Nat.le_succ_of_le (Nat.le_of_eq h)),
    slotAt_of_ge (Nat.le_of_eq h), h]
  rfl

theorem lacksSlots_dug {n : Nat} {slots : List Ty} (h : slots.length ≤ n) :
    LacksSlots ((dug n).rule .dug slots) := by
  by_cases hshort : slots.length < Size.succ n
  · exact ⟨_, rule_of_lt .dug hshort, rfl⟩
  · -- as many slots as can be counted pass the test, and then the insertion is refused
    have hpasses : (dug n).needed ≤ slots.length := Nat.not_lt.mp hshort
    cases slots with
    | nil => exact absurd (Nat.lt_min.mpr ⟨Nat.succ_pos n, by decide⟩) hshort
    | cons x rest =>
      rw [rule_of_le .dug hpasses]
      simp only [dug, List.take_of_length_le (Nat.le_succ_of_le h), if_pos (Nat.lt_of_succ_le h)]
      exact ⟨_, rfl, rfl⟩

theorem lacksSlots_dip_dig {n : Nat} {slots : List Ty} (h : slots.length ≤ n + 1)
    (hn : n + 1 ≤ Size.max) :
    LacksSlots ((dip 1 ((dig n).rule .dig)).andThen (swap.rule .swap) slots) := by
  refine LacksSlots.bind (lacksSlots_dip fun _ => lacksSlots_dig ?_ ?_) _
  all_goals
    rw [List.length_drop]
    omega

theorem dig_append (top : List Ty) (x : Ty) (rest : List Ty) :
    (dig top.length).rule .dig (top ++ x :: rest) = .ok (x :: (top ++ rest)) := by
  have hneeded : (dig top.length).needed ≤ (top ++ x :: rest).length :=
    Nat.le_trans (Nat.min_le_left _ _) (by simp)
  rw [rule_of_le .dig hneeded]
  simp [dig, slotAt, List.take_take]

theorem dug_append (top : List Ty) (x : Ty) (rest : List Ty) :
    (dug top.length).rule .dug (x :: (top ++ rest)) = .ok (top ++ x :: rest) := by
  have hneeded : (dug top.length).needed ≤ (x :: (top ++ rest)).length :=
    Nat.le_trans (Nat.min_le_left _ _) (by simp)
  rw [rule_of_le .dug hneeded]
  simp [dug]

theorem swap_cons (x y : Ty) (rest : List Ty) :
    swap.rule .swap (x :: y :: rest) = .ok (y :: x :: rest) :=
  rule_two_cons .swap x y rest _

theorem exists_slot {n : Nat} {slots : List Ty} (h : n < slots.length) :
    ∃ top x rest, slots = top ++ x :: rest ∧ top.length = n :=
  ⟨slots.take n, slots[n], slots.drop (n + 1), by simp, List.length_take_of_le (Nat.le_of_lt h)⟩

theorem exists_top {n : Nat} {slots : List Ty} (h : n < slots.length) :
    ∃ x top rest, slots = x :: (top ++ rest) ∧ top.length = n := by
  cases slots with
  | nil => cases h
  | cons x slots =>
    have hn : n ≤ slots.length := Nat.le_of_lt_succ h
    exact ⟨x, slots.take n, slots.drop n, by simp, List.length_take_of_le hn⟩

section

variable {n : Nat} {slots : List Ty} (hs : .universal ∉ slots)

include hs

/-- `DUG` undoes `DIG`. -/
theorem dig_andThen_dug (h : n < slots.length) :
    ((dig n).rule .dig).andThen ((dug n).rule .dug) slots = .ok slots := by
  obtain ⟨top, x, rest, rfl, rfl⟩ := exists_slot h
  rw [andThen_of_ok (dig_append top x rest) (isDiverged_of_not_mem (by simp_all)), dug_append]

/-- `DIG` undoes `DUG`. -/
theorem dug_andThen_dig (h : n < slots.length) :
    ((dug n).rule .dug).andThen ((dig n).rule .dig) slots = .ok slots := by
  obtain ⟨x, top, rest, rfl, rfl⟩ := exists_top h
  rw [andThen_of_ok (dug_append top x rest) (isDiverged_of_not_mem (by simp_all)), dig_append]

/-- Below the top slot, a slot is brought up to it, and then the two change places. -/
theorem exists_dig_succ (h : n + 1 < slots.length) :
    ∃ out, (dig (n + 1)).rule .dig slots = .ok out ∧
      (dip 1 ((dig n).rule .dig)).andThen (swap.rule .swap) slots = .ok out := by
  obtain ⟨top, x, rest, rfl, htop⟩ := exists_slot h
  obtain ⟨y, top, rfl⟩ := List.exists_cons_of_length_eq_add_one htop
  obtain rfl := Nat.succ.inj htop
  refine ⟨_, dig_append (y :: top) x rest, ?_⟩
  have hdip : dip 1 ((dig top.length).rule .dig) (y :: (top ++ x :: rest)) =
      .ok (y :: x :: (top ++ rest)) :=
    dip_one_of_ok (dig_append top x rest) (isDiverged_of_not_mem (by simp_all)) y
  rw [List.cons_append, andThen_of_ok hdip (isDiverged_of_not_mem (by simp_all)), swap_cons]
  rfl

/-- The two top slots change places, and then the lower one is taken down. -/
theorem exists_dug_succ (h : n + 1 < slots.length) :
    ∃ out, (dug (n + 1)).rule .dug slots = .ok out ∧
      (swap.rule .swap).andThen (dip 1 ((dug n).rule .dug)) slots = .ok out := by
  obtain ⟨x, top, rest, rfl, htop⟩ := exists_top h
  obtain ⟨y, top, rfl⟩ := List.exists_cons_of_length_eq_add_one htop
  obtain rfl := Nat.succ.inj htop
  refine ⟨_, dug_append (y :: top) x rest, ?_⟩
  rw [List.cons_append, andThen_of_ok (swap_cons x y _) (isDiverged_of_not_mem (by simp_all))]
  exact dip_one_of_ok (dug_append top x rest) (isDiverged_of_not_mem (by simp_all)) y

/-- Where there are too few slots for one, there are too few for the other. -/
theorem sameOrShort_dig (hn : n + 1 ≤ Size.max)
    (hmax : ¬(n + 1 = Size.max ∧ slots.length = Size.max)) :
    SameOrShort ((dig (n + 1)).rule .dig slots)
      ((dip 1 ((dig n).rule .dig)).andThen (swap.rule .swap) slots) := by
  by_cases h : n + 1 < slots.length
  · exact .inl (exists_dig_succ hs h)
  · have hlength := Nat.not_lt.mp h
    exact .inr ⟨lacksSlots_dig hlength (by omega), lacksSlots_dip_dig hlength hn⟩

/-- `DUG` one deeper is a `SWAP` and a `DUG` below the top. -/
theorem sameOrShort_dug :
    SameOrShort ((dug (n + 1)).rule .dug slots)
      ((swap.rule .swap).andThen (dip 1 ((dug n).rule .dug)) slots) := by
  by_cases h : n + 1 < slots.length
  · exact .inl (exists_dug_succ hs h)
  · refine .inr ⟨lacksSlots_dug (Nat.not_lt.mp h), ?_⟩
    match slots with
    | [] | [_] => exact LacksSlots.bind ⟨_, rule_of_lt .swap (by simp [swap, two]), rfl⟩ _
    | x :: y :: rest =>
      rw [andThen_of_ok (swap_cons x y rest) (isDiverged_of_not_mem (by simp_all))]
      refine lacksSlots_dip fun _ => lacksSlots_dug ?_
      simpa using h

end

end Action

section

variable (ctx : Context) {n : Nat}

theorem rule_check_dig (hn : n ≤ Size.max) :
    (Instr.dig n).check.rule ctx = (Action.dig n).rule .dig := by
  funext slots
  rw [Instr.dig, Instr.rule_check]
  change ((Operand.natAt .dig _ 0 >>= _) >>= _) = _
  rw [Operand.natAt_ofInt, if_pos hn]
  rfl

theorem rule_check_dug (hn : n ≤ Size.max) :
    (Instr.dug n).check.rule ctx = (Action.dug n).rule .dug := by
  funext slots
  rw [Instr.dug, Instr.rule_check]
  change ((Operand.natAt .dug _ 0 >>= _) >>= _) = _
  rw [Operand.natAt_ofInt, if_pos hn]
  rfl

theorem rule_check_swap : Instr.swap.check.rule ctx = Action.swap.rule .swap := by
  funext slots
  rw [Instr.swap, Instr.rule_check, operands]
  rfl

end

section

variable {code : List Instr} {ctx : Context} {slots : List Ty}

theorem outcome_of_rule {f : Failure TypeError} (h : (checkCode code).rule ctx slots = .error f)
    (frames : List (List Ty)) : ((checkCode code).run ⟨ctx, ⟨slots, frames⟩⟩).outcome = .error f :=
  (Check.rule_eq_error_iff (checkCode_confined code) (s := ⟨ctx, ⟨slots, frames⟩⟩)).mp h

theorem lacksSlots_of_rule (h : LacksSlots ((checkCode code).rule ctx slots))
    (frames : List (List Ty)) : LacksSlots ((checkCode code).run ⟨ctx, ⟨slots, frames⟩⟩).outcome := by
  obtain ⟨e, he, hkind⟩ := h
  exact ⟨e, outcome_of_rule he frames, hkind⟩

end

/-- Both runs succeed and leave the same, or both are refused for want of slots. -/
def EndAlike (run run' : Run Unit) : Prop :=
  run.outcome = .ok () ∧ run'.outcome = .ok () ∧ run.state = run'.state ∨
    LacksSlots run.outcome ∧ LacksSlots run'.outcome

theorem endAlike_of_rule {code code' : List Instr} {ctx : Context} {slots : List Ty}
    (h : SameOrShort ((checkCode code).rule ctx slots) ((checkCode code').rule ctx slots))
    (frames : List (List Ty)) :
    EndAlike ((checkCode code).run ⟨ctx, ⟨slots, frames⟩⟩)
      ((checkCode code').run ⟨ctx, ⟨slots, frames⟩⟩) := by
  rcases h with ⟨out, h, h'⟩ | ⟨h, h'⟩
  · obtain ⟨ho, hstate⟩ := (checkCode_confined code).run_of_rule h frames
    obtain ⟨ho', hstate'⟩ := (checkCode_confined code').run_of_rule h' frames
    exact .inl ⟨ho, ho', hstate.trans hstate'.symm⟩
  · exact .inr ⟨lacksSlots_of_rule h frames, lacksSlots_of_rule h' frames⟩

/-- On a stack without `universal` slots, `DIG n` and `DUG n` undo each other, in either order, if there is a slot at
that depth. Where there is room for one more scope, `DIG (n + 1)` ends like `DIG n` below the top slot and a `SWAP`, and
`DUG (n + 1)` like a `SWAP` and `DUG n` below the top slot. The one exception takes as many slots as can be counted,
more than any memory holds, and a `DIG` as deep as that: it fails too, but its length test lets it get to the missing
slot. -/
theorem dig_and_dug_rotate (ctx : Context) (frames : List (List Ty)) (slots : List Ty)
    (hs : .universal ∉ slots) (n : Nat) :
    let start : State := ⟨ctx, ⟨slots, frames⟩⟩
    let run (code : List Instr) := (checkCode code).run start
    (n ≤ Size.max → n < slots.length →
      ((run [.dig n, .dug n]).outcome = .ok () ∧ (run [.dig n, .dug n]).state = start) ∧
      ((run [.dug n, .dig n]).outcome = .ok () ∧ (run [.dug n, .dig n]).state = start)) ∧
    (ctx.HasRoom → n + 1 ≤ Size.max →
      (EndAlike (run [.dig (n + 1)]) (run [.dip 1 [.dig n], .swap]) ∨
        (n + 1 = Size.max ∧ slots.length = Size.max) ∧
          (run [.dig (n + 1)]).outcome = .stop (.missingSlot Size.max Size.max) ∧
          LacksSlots (run [.dip 1 [.dig n], .swap]).outcome) ∧
      EndAlike (run [.dug (n + 1)]) (run [.swap, .dip 1 [.dug n]])) := by
  intro start run
  refine ⟨fun hn hlength => ⟨?_, ?_⟩, fun hr hn => ⟨?_, ?_⟩⟩
  · apply (checkCode_confined _).run_of_rule
    rw [rule_checkCode_two, rule_check_dig ctx hn, rule_check_dug ctx hn]
    exact Action.dig_andThen_dug hs hlength
  · apply (checkCode_confined _).run_of_rule
    rw [rule_checkCode_two, rule_check_dig ctx hn, rule_check_dug ctx hn]
    exact Action.dug_andThen_dig hs hlength
  · have hdig : (checkCode [.dig (n + 1)]).rule ctx = (Action.dig (n + 1)).rule .dig := by
      rw [rule_checkCode_singleton, rule_check_dig ctx hn]
    have hbelow : (checkCode [.dip 1 [.dig n], .swap]).rule ctx =
        (Rule.dip 1 ((Action.dig n).rule .dig)).andThen (Action.swap.rule .swap) := by
      rw [rule_checkCode_two, rule_check_dip_one ctx hr, rule_check_dig ctx.deeper (by omega),
        rule_check_swap]
    by_cases hmax : n + 1 = Size.max ∧ slots.length = Size.max
    · refine .inr ⟨hmax, outcome_of_rule ?_ frames, lacksSlots_of_rule ?_ frames⟩
      · rw [hdig, hmax.1]
        exact Action.dig_of_max hmax.2
      · rw [hbelow]
        exact Action.lacksSlots_dip_dig (by omega) hn
    · refine .inl (endAlike_of_rule ?_ frames)
      rw [hdig, hbelow]
      exact Action.sameOrShort_dig hs hn hmax
  · refine endAlike_of_rule ?_ frames
    rw [rule_checkCode_singleton, rule_checkCode_two, rule_check_dip_one ctx hr,
      rule_check_dug ctx hn, rule_check_dug ctx.deeper (by omega), rule_check_swap]
    exact Action.sameOrShort_dug hs

/-- Four slots: the third is brought up and taken back, and taken down and brought back; the fourth is brought up in two
ways; and there is no fifth. -/
theorem dig_and_dug_rotate_four :
    let start : State := ⟨.ofConfig {}, ⟨[.unit, .bool, .int, .nat], [[.mutez]]⟩⟩
    let run (code : List Instr) := (checkCode code).run start
    (run [.dig 2, .dug 2]).state = start ∧ (run [.dug 2, .dig 2]).state = start ∧
      (run [.dip 1 [.dig 2], .swap]).outcome = .ok () ∧
      (run [.dip 1 [.dig 2], .swap]).state =
        ⟨.ofConfig {}, ⟨[.nat, .unit, .bool, .int], [[.mutez]]⟩⟩ ∧
      LacksSlots (run [.swap, .dip 1 [.dug 3]]).outcome := by
  intro start run
  have hdig : (run [.dig 3]).outcome = .ok () := by
    simp only [run, start]
    cbv
  have hup : (run [.dig 3]).state = ⟨.ofConfig {}, ⟨[.nat, .unit, .bool, .int], [[.mutez]]⟩⟩ := by
    simp only [run, start]
    cbv
  have hdug : (run [.dug 4]).outcome = .refuse (.stackLength (some .dug) 5 4) := by
    simp only [run, start]
    cbv
  obtain ⟨hundo, hthird⟩ := dig_and_dug_rotate (.ofConfig {}) [[.mutez]]
    [.unit, .bool, .int, .nat] (by simp) 2
  obtain ⟨-, hfourth⟩ := dig_and_dug_rotate (.ofConfig {}) [[.mutez]]
    [.unit, .bool, .int, .nat] (by simp) 3
  obtain ⟨⟨-, hback⟩, ⟨-, hforth⟩⟩ := hundo (by decide) (by decide)
  obtain ⟨hbrought, -⟩ := hthird (by decide) (by decide)
  obtain ⟨-, htaken⟩ := hfourth (by decide) (by decide)
  have halike := hbrought.resolve_right fun hmax => absurd hmax.1 (by decide)
  obtain ⟨-, ho, hstate⟩ := halike.resolve_right (by
    rintro ⟨⟨e, he, -⟩, -⟩
    cases hdig.symm.trans he)
  obtain ⟨-, hlacks⟩ := htaken.resolve_left (by
    rintro ⟨hok, -, -⟩
    cases hdug.symm.trans hok)
  exact ⟨hback, hforth, ho, hstate.symm.trans hup, hlacks⟩

end Michelson

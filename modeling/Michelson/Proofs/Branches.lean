import Michelson.Proofs.Refusal
import Michelson.Proofs.Weakening

namespace Michelson

theorem Outcome.ne_ok_of_refuse {ε α : Type} {o : Outcome ε α} {e : ε} (h : o = .refuse e) (a : α) :
    o ≠ .ok a := by
  rw [h]
  intro hok
  cases hok

theorem slotsEqual_symm {a b : List Ty} (h : slotsEqual a b) : slotsEqual b a := by
  induction a generalizing b with
  | nil =>
    cases b with
    | nil => exact h
    | cons y b => cases h
  | cons x a ih =>
    cases b with
    | nil => cases h
    | cons y b =>
      simp only [slotsEqual, Bool.or_eq_true, Bool.and_eq_true] at h ⊢
      rcases h with (hx | hy) | ⟨hxy, hab⟩
      · exact .inl (.inr hx)
      · exact .inl (.inl hy)
      · exact .inr ⟨Ty.equals_symm hxy, ih hab⟩

namespace Conditional

/-- The values that a conditional takes apart, and what its branches find in place of them, top first. -/
inductive TakesApart : Conditional → Ty → List Ty → List Ty → Prop
  | ifBool : TakesApart .ifBool .bool [] []
  | ifNone (t : Ty) : TakesApart .ifNone (.option t) [] [t]
  | ifLeft (l r : Ty) : TakesApart .ifLeft (.or l r) [l] [r]
  | ifCons (t : Ty) : TakesApart .ifCons (.list t) [t, .list t] []

section

variable {c : Conditional} {x : Ty}

/-- A conditional accepts the values that it can take apart, and no others. -/
theorem accepts_iff : c.accepts x ↔ ∃ ps qs, c.TakesApart x ps qs := by
  constructor
  · intro h
    unfold accepts at h
    split at h
    · exact ⟨_, _, .ifBool⟩
    · exact ⟨_, _, .ifNone _⟩
    · exact ⟨_, _, .ifLeft _ _⟩
    · exact ⟨_, _, .ifCons _⟩
    · cases h
  · rintro ⟨ps, qs, h⟩
    cases h <;> rfl

theorem TakesApart.parts {ps qs : List Ty} (h : c.TakesApart x ps qs) :
    c.parts .onTrue x = .ok ps ∧ c.parts .onFalse x = .ok qs := by
  cases h <;> exact ⟨rfl, rfl⟩

end

/-- Whether a conditional can go on after branches that leave these slots. -/
def agree (a b : List Ty) : Bool :=
  isUnreached a || isUnreached b || slotsEqual a b

/-- The slots of the first branch, or those of the second if the first is never left. -/
def kept (a b : List Ty) : List Ty :=
  if isUnreached a then b else a

variable {a b : List Ty}

/-- Branches agree if one of them is never left or both leave equal slots. -/
theorem agree_iff : agree a b ↔ isUnreached a ∨ isUnreached b ∨ slotsEqual a b := by
  rw [agree, Bool.or_eq_true, Bool.or_eq_true, or_assoc]

/-- It does not matter which of two branches comes first. -/
theorem agree_comm : agree a b ↔ agree b a := by
  have hequal : slotsEqual a b ↔ slotsEqual b a := ⟨slotsEqual_symm, slotsEqual_symm⟩
  rw [agree_iff, agree_iff, hequal, or_left_comm]

/-- Each branch is put in place of the other if that is never left, so that the two are compared as they are. -/
theorem joined_eq (c : Conditional) (a b : List Ty) :
    c.joined a b =
      if agree a b then .ok (kept a b)
      else .refuse (.branches c.opcode (.ofSlots a) (.ofSlots b)) := by
  unfold agree kept
  cases ha : isUnreached a with
  | true => exact joined_of_unreached_left ha
  | false =>
    cases hb : isUnreached b with
    | true => exact joined_of_unreached_right ha hb
    | false => exact joined_of_reached ha hb

/-- Two stacks that are never reached are equal, since the comparison ends at the top. -/
theorem slotsEqual_of_unreached (ha : isUnreached a) (hb : isUnreached b) : slotsEqual a b := by
  unfold isUnreached at ha hb
  split at ha
  · split at hb
    · rfl
    · cases hb
  · cases ha

/-- What is kept stands for either branch. -/
theorem kept_equals (h : agree a b) :
    (isUnreached a ∨ slotsEqual (kept a b) a) ∧ (isUnreached b ∨ slotsEqual (kept a b) b) := by
  rw [agree_iff] at h
  unfold kept
  cases ha : isUnreached a with
  | true => exact ⟨.inl rfl, .inr (slotsEqual_refl b)⟩
  | false =>
    refine ⟨.inr (slotsEqual_refl a), ?_⟩
    rcases h with h | h | h
    · rw [ha] at h
      cases h
    · exact .inl h
    · exact .inr h

/-- Which branch comes first makes no difference but for equality. -/
theorem kept_comm (h : agree a b) : slotsEqual (kept a b) (kept b a) := by
  unfold kept
  cases ha : isUnreached a with
  | true =>
    cases hb : isUnreached b with
    | true => exact slotsEqual_of_unreached hb ha
    | false => exact slotsEqual_refl b
  | false =>
    cases hb : isUnreached b with
    | true => exact slotsEqual_refl a
    | false => simpa [agree, ha, hb] using h

end Conditional

def Conditional.runBranch (c : Conditional) (ctx : Context) (slots : List Ty)
    (body : List Instr) : Run Unit :=
  (Check.inScope c.opcode (checkCode body)).run ⟨ctx, .ofSlots slots⟩

section

variable {c : Conditional} {ctx : Context} {x : Ty} {rest : List Ty} {onTrue onFalse : List Instr}

theorem rule_of_runBranch {slots : List Ty} {body : List Instr}
    (h : (c.runBranch ctx slots body).outcome = .ok ()) :
    (Check.inScope c.opcode (checkCode body)).rule ctx slots =
      .ok (c.runBranch ctx slots body).state.stack.visible := by
  have hconfined := Check.Confined.inScope (checkCode_confined body) c.opcode
  exact (Check.rule_eq_ok_iff hconfined (s := ⟨ctx, .ofSlots slots⟩)).mpr ⟨h, rfl⟩

theorem rule_check_conditional (c : Conditional) (args : List Arg) (ctx : Context) (slots : List Ty) :
    (Instr.check ⟨c.opcode, args⟩).rule ctx slots =
      Rule.conditional c (Rule.branches c (operands args) ctx) slots := by
  rw [Instr.rule_check]
  cases c <;> rfl

/-- Once both branches have been accepted, they are joined. -/
theorem rule_conditional_of_branches {ps qs a b : List Ty} (hx : c.TakesApart x ps qs)
    (ha : (Check.inScope c.opcode (checkCode onTrue)).rule ctx (ps ++ rest) = .ok a)
    (hb : (Check.inScope c.opcode (checkCode onFalse)).rule ctx (qs ++ rest) = .ok b) :
    (Instr.check ⟨c.opcode, [.code onTrue, .code onFalse]⟩).rule ctx (x :: rest) =
      if Conditional.agree a b then .ok (Conditional.kept a b)
      else .refuse (.branches c.opcode (.ofSlots a) (.ofSlots b)) := by
  obtain ⟨hps, hqs⟩ := hx.parts
  have haccepts := Conditional.accepts_iff.mpr ⟨ps, qs, hx⟩
  have hbodies : Rule.branches c (operands [.code onTrue, .code onFalse]) ctx =
      .ok (Body.rule ⟨onTrue, checkCode onTrue⟩ c.opcode ctx,
        Body.rule ⟨onFalse, checkCode onFalse⟩ c.opcode ctx) := by
    simp only [operands, Arg.operand]
    rfl
  rw [rule_check_conditional, Rule.conditional, Rule.onTop_cons, if_pos haccepts, hbodies]
  simp only [Outcome.ok_bind, Rule.branch, hps, hqs, Body.rule, ha, hb]
  exact c.joined_eq a b

/-- A conditional that fails leaves the state as it has found it. -/
theorem conditional_refused {e : Failure TypeError} {args : List Arg} {slots : List Ty}
    {frames : List (List Ty)}
    (h : ((Instr.check ⟨c.opcode, args⟩).run ⟨ctx, ⟨slots, frames⟩⟩).outcome = .error e) :
    ((Instr.check ⟨c.opcode, args⟩).run ⟨ctx, ⟨slots, frames⟩⟩).state = ⟨ctx, ⟨slots, frames⟩⟩ := by
  refine Instr.state_of_refused ?_ ?_ ?_ ?_ h <;> cases c <;> simp [Conditional.opcode]

section

variable {ps qs : List Ty} (hx : c.TakesApart x ps qs) (frames : List (List Ty))
  (ha : (c.runBranch ctx (ps ++ rest) onTrue).outcome = .ok ())
  (hb : (c.runBranch ctx (qs ++ rest) onFalse).outcome = .ok ())

include hx ha hb

/-- Branches that agree are joined into the slots of the one that is left. -/
theorem run_conditional_of_agree :
    let a := (c.runBranch ctx (ps ++ rest) onTrue).state.stack.visible
    let b := (c.runBranch ctx (qs ++ rest) onFalse).state.stack.visible
    let run := (Instr.check ⟨c.opcode, [.code onTrue, .code onFalse]⟩).run ⟨ctx, ⟨x :: rest, frames⟩⟩
    Conditional.agree a b →
      run.outcome = .ok () ∧ run.state = ⟨ctx, ⟨Conditional.kept a b, frames⟩⟩ := by
  intro a b run hagree
  have hrule := rule_conditional_of_branches hx (rule_of_runBranch ha) (rule_of_runBranch hb)
  rw [if_pos hagree] at hrule
  exact (instr_confined _).run_of_rule hrule frames

/-- Branches that differ are shown as they are, and the stack is given back. -/
theorem run_conditional_of_not_agree :
    let a := (c.runBranch ctx (ps ++ rest) onTrue).state.stack.visible
    let b := (c.runBranch ctx (qs ++ rest) onFalse).state.stack.visible
    let run := (Instr.check ⟨c.opcode, [.code onTrue, .code onFalse]⟩).run ⟨ctx, ⟨x :: rest, frames⟩⟩
    ¬Conditional.agree a b →
      run.outcome = .refuse (.branches c.opcode (.ofSlots a) (.ofSlots b)) ∧
        run.state = ⟨ctx, ⟨x :: rest, frames⟩⟩ := by
  intro a b run hagree
  have hrule := rule_conditional_of_branches hx (rule_of_runBranch ha) (rule_of_runBranch hb)
  rw [if_neg hagree] at hrule
  have hrefused : run.outcome = .refuse (.branches c.opcode (.ofSlots a) (.ofSlots b)) :=
    (Check.rule_eq_error_iff (instr_confined _) (s := ⟨ctx, ⟨x :: rest, frames⟩⟩)).mp hrule
  exact ⟨hrefused, conditional_refused hrefused⟩

end

end

/-- A conditional both of whose branches are accepted goes on exactly if one of them is never left or they leave equal
slots. Then it leaves the slots of the first branch that is ever left, which stand for those of both. Otherwise it is
refused with what the branches leave, and the stack is as before. Which branch of an `IF` comes first makes no difference
but for equality. -/
theorem conditional_joins_branches (c : Conditional) (ctx : Context) (frames : List (List Ty))
    (x : Ty) (rest : List Ty) (onTrue onFalse : List Instr) (hx : c.accepts x) :
    let run (onTrue onFalse : List Instr) :=
      (Instr.check ⟨c.opcode, [.code onTrue, .code onFalse]⟩).run ⟨ctx, ⟨x :: rest, frames⟩⟩
    ∃ ps qs, c.TakesApart x ps qs ∧
      let first := c.runBranch ctx (ps ++ rest) onTrue
      let second := c.runBranch ctx (qs ++ rest) onFalse
      (first.outcome = .ok () → second.outcome = .ok () →
        let a := first.state.stack.visible
        let b := second.state.stack.visible
        let joined := run onTrue onFalse
        let left := joined.state.stack.visible
        (joined.outcome = .ok () ↔
          Conditional.isUnreached a ∨ Conditional.isUnreached b ∨ slotsEqual a b) ∧
        (joined.outcome = .ok () →
          joined.state = ⟨ctx, ⟨if Conditional.isUnreached a then b else a, frames⟩⟩ ∧
          (Conditional.isUnreached a ∨ slotsEqual left a) ∧
          (Conditional.isUnreached b ∨ slotsEqual left b)) ∧
        (joined.outcome ≠ .ok () →
          joined.outcome = .refuse (.branches c.opcode (.ofSlots a) (.ofSlots b)) ∧
          joined.state = ⟨ctx, ⟨x :: rest, frames⟩⟩) ∧
        (c = .ifBool →
          let swapped := run onFalse onTrue
          (swapped.outcome = .ok () ↔ joined.outcome = .ok ()) ∧
          (joined.outcome = .ok () → slotsEqual left swapped.state.stack.visible))) := by
  intro run
  obtain ⟨ps, qs, hparts⟩ := Conditional.accepts_iff.mp hx
  refine ⟨ps, qs, hparts, ?_⟩
  intro first second ha hb a b joined left
  by_cases hagree : Conditional.agree a b
  · obtain ⟨hok, hstate⟩ := run_conditional_of_agree hparts frames ha hb hagree
    have hleft : left = Conditional.kept a b := congrArg (·.stack.visible) hstate
    refine ⟨iff_of_true hok (Conditional.agree_iff.mp hagree), fun _ => ⟨hstate, ?_⟩,
      fun hno => absurd hok hno, ?_⟩
    · rw [hleft]
      exact Conditional.kept_equals hagree
    · -- the branches of an `IF` find the same slots, so they can change places
      rintro rfl
      cases hparts
      obtain ⟨hok', hstate'⟩ :=
        run_conditional_of_agree .ifBool frames hb ha (Conditional.agree_comm.mp hagree)
      refine ⟨iff_of_true hok' hok, fun _ => ?_⟩
      have hkept := Conditional.kept_comm hagree
      rw [hleft]
      simpa only [run, hstate'] using hkept
  · obtain ⟨hno, hstate⟩ := run_conditional_of_not_agree hparts frames ha hb hagree
    have hfails : joined.outcome ≠ .ok () := Outcome.ne_ok_of_refuse hno ()
    refine ⟨iff_of_false hfails (mt Conditional.agree_iff.mpr hagree), fun hok => absurd hok hfails,
      fun _ => ⟨hno, hstate⟩, ?_⟩
    rintro rfl
    cases hparts
    obtain ⟨hno', -⟩ :=
      run_conditional_of_not_agree .ifBool frames hb ha (mt Conditional.agree_comm.mpr hagree)
    exact ⟨iff_of_false (Outcome.ne_ok_of_refuse hno' ()) hfails, fun hok => absurd hok hfails⟩

/-- The first branch of an `IF_NONE` makes a pair, the second finds a record that stands for it. Both are accepted, and
the pair is kept. An `IF` whose second branch drops a slot is refused with what the branches leave. -/
theorem conditional_joins_branches_record :
    let point : Ty := .record ⟨"point", [⟨"x", .int⟩, ⟨"y", .nat⟩]⟩
    let make : List Instr :=
      [⟨.push, [.type .nat, .ofInt 1]⟩, ⟨.push, [.type .int, .ofInt 0]⟩, ⟨.pair, []⟩]
    let matched := (Instr.check ⟨.ifNone, [.code make, .code []]⟩).run
      ⟨.ofConfig {}, ⟨[.option point, .string], [[.unit]]⟩⟩
    let dropped := (Instr.check ⟨.ifBool, [.code [], .code [⟨.drop, []⟩]]⟩).run
      ⟨.ofConfig {}, ⟨[.bool, .string], [[.unit]]⟩⟩
    matched.outcome = .ok () ∧
      matched.state = ⟨.ofConfig {}, ⟨[.pair .int .nat, .string], [[.unit]]⟩⟩ ∧
      dropped.outcome = .refuse (.branches .ifBool (.ofSlots [.string]) (.ofSlots [])) ∧
      dropped.state = ⟨.ofConfig {}, ⟨[.bool, .string], [[.unit]]⟩⟩ := by
  intro point make matched dropped
  obtain ⟨ps, qs, hnone, hmatch⟩ := conditional_joins_branches .ifNone (.ofConfig {}) [[.unit]]
    (.option point) [.string] make [] rfl
  obtain ⟨ps', qs', hbool, hdrop⟩ := conditional_joins_branches .ifBool (.ofConfig {}) [[.unit]]
    .bool [.string] [] [⟨.drop, []⟩] rfl
  cases hnone
  cases hbool
  obtain ⟨hok, hkept, -, -⟩ := hmatch (by cbv) (by cbv)
  have hmatched : matched.outcome = .ok () := hok.mpr (.inr (.inr (by cbv)))
  obtain ⟨hno, -, hrefused, -⟩ := hdrop (by cbv) (by cbv)
  have hdropped : dropped.outcome ≠ .ok () := by
    intro h
    rcases hno.mp h with h | h | h
    all_goals
      cases h
  obtain ⟨herror, hback⟩ := hrefused hdropped
  exact ⟨hmatched, (hkept hmatched).1, herror, hback⟩

end Michelson

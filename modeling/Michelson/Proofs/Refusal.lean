import Michelson.Proofs.Meaning

namespace Michelson

variable {α β : Type}

/-- At most the top slot is gone. -/
def AtMostPopped (found left : List Ty) : Prop :=
  left = found ∨ ∃ x, found = x :: left

/-- Nothing is gone, but for the slot that a `DUG` takes off before it finds that there are too few below it. So many
slots that this can happen are as many as can be counted. -/
def AsFound (op : Opcode) (found left : List Ty) : Prop :=
  left = found ∨ op = .dug ∧ found.length = Size.max ∧ left = found.tail

namespace Check

def ReadOnly (m : Check α) : Prop :=
  ∀ ctx slots, (m.effect ctx slots).slots = slots

/-- The slots that a refused check has found and those that it leaves are related in this way. -/
def RefusedLeaving (related : List Ty → List Ty → Prop) (m : Check α) : Prop :=
  ∀ ctx slots e, (m.effect ctx slots).outcome = .error e →
    related slots (m.effect ctx slots).slots

theorem ReadOnly.fork : fork.ReadOnly := fun _ _ => rfl

theorem ReadOnly.lift (x : Outcome TypeError α) : (lift x).ReadOnly := fun _ _ => rfl

/-- A check on a stack of its own does not touch the one at hand. -/
theorem ReadOnly.onStack (own : Stack) (body : Check Unit) : (onStack own body).ReadOnly :=
  fun _ _ => rfl

theorem ReadOnly.top (op : Opcode) : (edit (Edit.top op)).ReadOnly := by
  intro ctx slots
  cases slots with
  | nil => rfl
  | cons x rest => rw [effect_eq fun frames => edit_run (Edit.run_top op x rest frames)]

theorem ReadOnly.bind {m : Check α} (hc : m.Confined) (hm : m.ReadOnly) {f : α → Check β}
    (hf : ∀ a, (f a).ReadOnly) : (m >>= f).ReadOnly := by
  intro ctx slots
  have hs := hm ctx slots
  rw [effect_bind hc]
  generalize m.effect ctx slots = e at hs ⊢
  obtain ⟨outcome, left, events⟩ := e
  cases outcome with
  | error e => exact hs
  | ok a =>
    rw [Effect.andThen_ok]
    exact (hf a ctx left).trans hs

theorem ReadOnly.checkBranch (body : Body) (c : Conditional) (side : Branch) :
    (c.checkBranch side body).ReadOnly :=
  .bind closed_confined.fork .fork fun _ => .onStack _ _

section

variable {related : List Ty → List Ty → Prop} (refl : ∀ slots, related slots slots)

include refl

theorem ReadOnly.refusedLeaving {m : Check α} (hm : m.ReadOnly) : m.RefusedLeaving related := by
  intro ctx slots e _
  rw [hm ctx slots]
  exact refl slots

/-- As long as nothing has been changed, only what follows can leave the slots otherwise. -/
theorem RefusedLeaving.bind {m : Check α} (hc : m.Confined) (hm : m.ReadOnly) {f : α → Check β}
    (hf : ∀ a, (f a).RefusedLeaving related) : (m >>= f).RefusedLeaving related := by
  intro ctx slots e he
  have hs := hm ctx slots
  rw [effect_bind hc] at he ⊢
  generalize m.effect ctx slots = inner at hs he ⊢
  obtain ⟨outcome, left, events⟩ := inner
  obtain rfl : left = slots := hs
  cases outcome with
  | error e => exact refl left
  | ok a =>
    rw [Effect.andThen_ok] at he ⊢
    exact hf a ctx left e he

/-- What follows a decision counts only with what has been decided. -/
theorem RefusedLeaving.lift_bind {x : Outcome TypeError α} {f : α → Check β}
    (hf : ∀ a, x = .ok a → (f a).RefusedLeaving related) :
    (Check.lift x >>= f).RefusedLeaving related := by
  cases x with
  | error e =>
    intro ctx slots e' _
    exact refl slots
  | ok a => exact hf a rfl

end

theorem RefusedLeaving.refuse (e : TypeError) : (refuse e : Check α).RefusedLeaving Eq :=
  (ReadOnly.lift _).refusedLeaving fun _ => rfl

theorem RefusedLeaving.mono {related related' : List Ty → List Ty → Prop} {m : Check α}
    (h : m.RefusedLeaving related) (hr : ∀ found left, related found left → related' found left) :
    m.RefusedLeaving related' :=
  fun ctx slots e he => hr _ _ (h ctx slots e he)

/-- Work in place undoes nothing, but there is nothing to undo where it is refused. -/
theorem RefusedLeaving.flat (op : Opcode) (args : List Operand) :
    (edit (Edit.flat op args)).RefusedLeaving (AsFound op) := by
  intro ctx slots e he
  obtain ⟨left, hleft, hrun⟩ := Edit.run_flat op args slots
  cases hr : Rule.plain op args slots with
  | error f =>
    simp only [hr, Edit.settle_error] at hrun
    rw [effect_eq fun frames => edit_run (hrun frames)]
    exact hleft
  | ok out =>
    simp only [hr, Edit.settle_ok] at hrun
    rw [effect_eq fun frames => edit_run (hrun frames)] at he
    cases he

theorem ReadOnly.reached (op : Opcode) (side : Branch) (own other : Stack) :
    (Conditional.reached op side own other).ReadOnly := by
  refine .bind (.lift _) (.lift _) fun never => ?_
  split
  · exact fun _ _ => rfl
  · exact fun _ _ => rfl

/-- Branches that disagree leave the stack as it was. -/
theorem RefusedLeaving.join (op : Opcode) (a b : Stack) :
    (Conditional.join op a b).RefusedLeaving Eq := by
  refine .bind (fun _ => rfl) (closed_confined.reached _ _ _ _) (.reached _ _ _ _) fun a => ?_
  refine .bind (fun _ => rfl) (closed_confined.reached _ _ _ _) (.reached _ _ _ _) fun b => ?_
  split
  · intro ctx slots e he
    cases he
  · exact .refuse _

/-- After the operand has been taken off, the rest of the stack is only looked at. -/
theorem RefusedLeaving.pop_bind {f : Ty → Check β} (hf : ∀ x, (f x).ReadOnly) :
    (pop >>= f).RefusedLeaving AtMostPopped := by
  intro ctx slots e _
  rw [effect_bind closed_confined.pop]
  cases slots with
  | nil => exact .inl rfl
  | cons x rest => exact .inr ⟨x, congrArg (x :: ·) (hf x ctx rest).symm⟩

section

variable {body : Body} (hb : body.check.Confined)

include hb

/-- `LOOP` has popped the truth value when its body is refused. -/
theorem RefusedLeaving.loop : (loop body).RefusedLeaving AtMostPopped := by
  refine .bind (fun _ => .inl rfl) (.edit (.top .loop)) (.top .loop) fun x => ?_
  split
  · refine .pop_bind fun _ => .bind closed_confined.fork .fork fun rest => ?_
    exact .bind (.onStack (.inScope hb .loop) rest) (.onStack _ _) fun _ => .lift _
  · exact (ReadOnly.lift _).refusedLeaving fun _ => .inl rfl

theorem RefusedLeaving.iter : (iter body).RefusedLeaving AtMostPopped := by
  refine .bind (fun _ => .inl rfl) (.edit (.top .iter)) (.top .iter) fun x => ?_
  split
  · refine .pop_bind fun _ => .bind closed_confined.fork .fork fun rest => ?_
    exact .bind (.onStack (.inScope hb .iter) _) (.onStack _ _) fun _ => .lift _
  · exact (ReadOnly.lift _).refusedLeaving fun _ => .inl rfl

theorem RefusedLeaving.lambda (arg ret : Ty) : (lambda arg ret body).RefusedLeaving Eq := by
  refine .bind (fun _ => rfl) (.onStack (.inScope hb .lambda) _) (.onStack _ _) fun left => ?_
  refine .lift_bind (fun _ => rfl) fun _ _ ctx slots e he => ?_
  cases he

/-- A `DIP` that is refused before its body is entered changes nothing, and then it reports nothing either. Otherwise
the hidden slots are back on top of what the body has left. -/
theorem dip_refused {n : Nat} {ctx : Context} {slots : List Ty} {e : Failure TypeError}
    (he : ((dip n body).effect ctx slots).outcome = .error e) :
    ((dip n body).effect ctx slots).slots = slots ∨
      ((dip n body).effect ctx slots).events ≠ [] ∧
        ∃ below, ((dip n body).effect ctx slots).slots = slots.take n ++ below := by
  rw [effect_dip hb] at he ⊢
  split at he
  · rename_i hn
    rw [if_pos hn]
    exact .inl rfl
  · rename_i hn
    rw [if_neg hn]
    split at he
    · rename_i hr
      rw [if_pos hr]
      generalize body.check.effect ctx.deeper (slots.drop n) = inner at he ⊢
      obtain ⟨outcome, left, events⟩ := inner
      cases outcome with
      | error e => exact .inr ⟨nofun, left, rfl⟩
      | ok u => cases he
    · rename_i hr
      rw [if_neg hr]
      exact .inl rfl

end

section

variable {args : List Operand} (ha : ∀ body, Operand.code body ∈ args → body.check.Confined)

include ha

/-- A conditional works on copies of the stack until its branches are joined. -/
theorem RefusedLeaving.conditional (c : Conditional) : (c.check args).RefusedLeaving Eq := by
  refine .bind (fun _ => rfl) (.edit (.top c.opcode)) (.top c.opcode) fun x => ?_
  split
  · refine .lift_bind (fun _ => rfl) fun branches hb => ?_
    obtain ⟨ht, hf⟩ := Conditional.mem_of_branches hb
    refine .bind (fun _ => rfl) (.checkBranch (ha _ ht) c .onTrue) (.checkBranch _ _ _) fun a => ?_
    refine .bind (fun _ => rfl) (.checkBranch (ha _ hf) c .onFalse) (.checkBranch _ _ _) fun b => ?_
    exact .join c.opcode a b
  · exact .refuse _

/-- An instruction other than `DIP`, `LOOP` and `ITER` leaves the slots as it has found them. -/
theorem RefusedLeaving.ofOpcode {op : Opcode} (hd : op ≠ .dip) (hl : op ≠ .loop)
    (hi : op ≠ .iter) : (ofOpcode op args).RefusedLeaving (AsFound op) := by
  have asFound {m : Check Unit} (h : m.RefusedLeaving Eq) : m.RefusedLeaving (AsFound op) :=
    h.mono fun _ _ heq => .inl heq.symm
  unfold Check.ofOpcode
  split
  · refine asFound (.lift_bind (fun _ => rfl) fun arg _ => .lift_bind (fun _ => rfl) fun ret _ => ?_)
    exact .lift_bind (fun _ => rfl) fun body hb => .lambda (ha body (Operand.mem_of_codeAt hb)) arg ret
  · exact absurd rfl hd
  · exact absurd rfl hl
  · exact absurd rfl hi
  · exact asFound (.conditional ha _)
  · exact asFound (.conditional ha _)
  · exact asFound (.conditional ha _)
  · exact asFound (.conditional ha _)
  · exact .flat op args

theorem RefusedLeaving.repetition {op : Opcode} (h : op = .loop ∨ op = .iter) :
    (Check.ofOpcode op args).RefusedLeaving AtMostPopped := by
  rcases h with rfl | rfl
  · exact .lift_bind (fun _ => .inl rfl) fun body hb => .loop (ha body (Operand.mem_of_codeAt hb))
  · exact .lift_bind (fun _ => .inl rfl) fun body hb => .iter (ha body (Operand.mem_of_codeAt hb))

/-- An instruction is refused for the number of its arguments, before all else, or by its rule. -/
theorem instruction_refused {op : Opcode} {ctx : Context} {slots : List Ty}
    {e : Failure TypeError} (he : ((instruction op args).effect ctx slots).outcome = .error e) :
    (instruction op args).effect ctx slots = ⟨.error e, slots, []⟩ ∨
      (instruction op args).effect ctx slots = (Check.ofOpcode op args).effect ctx slots := by
  cases hn : Operand.count op args with
  | error f =>
    rw [instruction, effect_bind (.lift _), effect_lift, hn, Effect.andThen_error] at he ⊢
    cases he
    exact .inl rfl
  | ok u =>
    rw [effect_instruction ha hn] at he ⊢
    generalize (Check.ofOpcode op args).effect ctx slots = inner at he ⊢
    obtain ⟨outcome, left, events⟩ := inner
    cases outcome with
    | error e => exact .inr rfl
    | ok u => cases he

theorem RefusedLeaving.instruction {related : List Ty → List Ty → Prop}
    (refl : ∀ slots, related slots slots) {op : Opcode}
    (h : (Check.ofOpcode op args).RefusedLeaving related) :
    (instruction op args).RefusedLeaving related := by
  intro ctx slots e he
  rcases instruction_refused ha he with hi | hi
  · rw [hi]
    exact refl slots
  · rw [hi] at he ⊢
    exact h ctx slots e he

end

end Check

theorem Instr.refusedLeaving {op : Opcode} {args : List Arg} {related : List Ty → List Ty → Prop}
    (refl : ∀ slots, related slots slots)
    (h : (Check.ofOpcode op (operands args)).RefusedLeaving related) :
    (Instr.check ⟨op, args⟩).RefusedLeaving related := by
  rw [Instr.check]
  exact .instruction operands_confined refl h

theorem Instr.asFound_of_refused {op : Opcode} {args : List Arg} {ctx : Context} {slots : List Ty}
    {e : Failure TypeError} (hd : op ≠ .dip) (hl : op ≠ .loop) (hi : op ≠ .iter)
    (h : ((Instr.check ⟨op, args⟩).effect ctx slots).outcome = .error e) :
    AsFound op slots ((Instr.check ⟨op, args⟩).effect ctx slots).slots :=
  refusedLeaving (fun _ => .inl rfl) (.ofOpcode operands_confined hd hl hi) ctx slots e h

/-- Most instructions that are refused have changed nothing. -/
theorem Instr.state_of_refused {op : Opcode} {args : List Arg} {ctx : Context} {slots : List Ty}
    {frames : List (List Ty)} {e : Failure TypeError} (hd : op ≠ .dip) (hl : op ≠ .loop)
    (hi : op ≠ .iter) (hdug : op ≠ .dug)
    (h : ((Instr.check ⟨op, args⟩).run ⟨ctx, ⟨slots, frames⟩⟩).outcome = .error e) :
    ((Instr.check ⟨op, args⟩).run ⟨ctx, ⟨slots, frames⟩⟩).state = ⟨ctx, ⟨slots, frames⟩⟩ := by
  have hrun := instr_confined ⟨op, args⟩ ctx slots frames
  rw [Check.run, hrun] at h ⊢
  rcases asFound_of_refused hd hl hi h with hleft | ⟨hop, -⟩
  · rw [Effect.run, hleft]
  · exact absurd hop hdug

/-- The height that arguments of a `DIP` give: that of the first of two, or one if there is a single argument. The body
need not be code. -/
def DipHeight (args : List Arg) (n : Nat) : Prop :=
  (∃ body, args = [.ofInt n, body] ∧ n ≤ Size.max) ∨ ∃ body, args = [body] ∧ n = 1

/-- The height that arguments give is the one that is read. -/
theorem DipHeight.eq_of_dipOperands {args : List Arg} {n m : Nat} {body : Body}
    (hn : DipHeight args n) (h : Check.dipOperands (operands args) = .ok (m, body)) : m = n := by
  rcases hn with ⟨second, rfl, hn⟩ | ⟨first, rfl, rfl⟩
  · obtain ⟨height, hh, h⟩ := Outcome.bind_eq_ok.mp h
    obtain ⟨code, -, h⟩ := Outcome.bind_eq_ok.mp h
    cases h
    simp only [Operand.natAt, operands, Arg.operand, Arg.ofInt, List.getElem?_cons_zero, hn,
      if_true] at hh
    cases hh
    rfl
  · obtain ⟨code, -, h⟩ := Outcome.bind_eq_ok.mp h
    cases h
    rfl

/-- A `DIP` that is refused has either changed nothing or keeps the slots that it has hidden on top. -/
theorem dip_instr_refused {args : List Arg} {ctx : Context} {slots : List Ty}
    {e : Failure TypeError}
    (he : ((Instr.check ⟨.dip, args⟩).effect ctx slots).outcome = .error e) :
    let left := (Instr.check ⟨.dip, args⟩).effect ctx slots
    (left.events = [] → left.slots = slots) ∧
      ∀ n, DipHeight args n → ∃ below, left.slots = slots.take n ++ below := by
  intro left
  have unchanged (h : left.slots = slots) :
      (left.events = [] → left.slots = slots) ∧
        ∀ n, DipHeight args n → ∃ below, left.slots = slots.take n ++ below :=
    ⟨fun _ => h, fun n _ => ⟨slots.drop n, h.trans (List.take_append_drop n slots).symm⟩⟩
  rw [Instr.check] at he
  rcases Check.instruction_refused operands_confined he with hi | hi
  · exact unchanged (congrArg Effect.slots hi)
  · rw [hi] at he
    have hl : left = (Check.ofOpcode .dip (operands args)).effect ctx slots := hi
    cases hd : Check.dipOperands (operands args) with
    | error f =>
      simp only [Check.ofOpcode, hd] at hl
      exact unchanged (congrArg Effect.slots hl)
    | ok p =>
      obtain ⟨m, body⟩ := p
      have ho : Check.ofOpcode .dip (operands args) = Check.dip m body := by
        simp only [Check.ofOpcode, hd]
        rfl
      rw [ho] at he hl
      have hb := operands_confined body (Check.mem_of_dipOperands hd)
      rcases Check.dip_refused hb he with hs | ⟨hev, below, hs⟩
      · exact unchanged (hl ▸ hs)
      · rw [hl]
        refine ⟨fun h => absurd h hev, fun n hn => ⟨below, ?_⟩⟩
        rw [hs, hn.eq_of_dipOperands hd]

section

variable {i : Instr} (rest : List Instr) {s mid : State} {events : List Event}

theorem run_checkCode_cons_of_error {e : Failure TypeError}
    (hi : i.check.run s = ⟨.error e, mid, events⟩) :
    (checkCode (i :: rest)).run s = ⟨.error e, mid, events⟩ := by
  rw [Check.run] at hi
  rw [Check.run, checkCode, Check.bind_apply, hi]

theorem run_checkCode_cons_of_ok (hi : i.check.run s = ⟨.ok (), mid, events⟩) :
    (checkCode (i :: rest)).run s =
      if mid.stack.diverged then ⟨.ok (), mid, events⟩
      else { (checkCode rest).run mid with events := events ++ ((checkCode rest).run mid).events } := by
  rw [Check.run] at hi
  rw [Check.run, checkCode, Check.bind_apply, hi]
  have hlook : Check.diverged mid = ⟨.ok mid.stack.diverged, mid, []⟩ := rfl
  cases hd : mid.stack.diverged <;> simp [Check.bind_apply, hlook, hd, pure, Check.run]

end

/-- Code that is refused is refused at one of its instructions, which finds what those before it have made. None of
these is skipped. -/
theorem checkCode_refused {e : Failure TypeError} :
    ∀ {code : List Instr} {s : State}, ((checkCode code).run s).outcome = .error e →
      ∃ done i rest, code = done ++ i :: rest ∧
        let reached := (checkCode done).run s
        let last := i.check.run reached.state
        reached.outcome = .ok () ∧ (done = [] ∨ reached.state.stack.diverged = false) ∧
          last.outcome = .error e ∧
          (checkCode code).run s = { last with events := reached.events ++ last.events }
  | [], s, he => nomatch he
  | i :: rest, s, he => by
    rcases hi : i.check.run s with ⟨outcome, mid, events⟩
    cases outcome with
    | error f =>
      have hrun := run_checkCode_cons_of_error rest hi
      rw [hrun] at he
      refine ⟨[], i, rest, rfl, rfl, .inl rfl, ?_, ?_⟩
      · exact (congrArg Run.outcome hi).trans he
      · exact hrun.trans hi.symm
    | ok u =>
      have hrun := run_checkCode_cons_of_ok rest hi
      cases hd : mid.stack.diverged with
      | true =>
        rw [hrun, if_pos hd] at he
        cases he
      | false =>
        rw [hd, if_neg Bool.false_ne_true] at hrun
        rw [hrun] at he
        obtain ⟨done, j, tail, rfl, hok, hlive, hlast, heq⟩ := checkCode_refused he
        have hdone := run_checkCode_cons_of_ok done hi
        rw [hd, if_neg Bool.false_ne_true] at hdone
        refine ⟨i :: done, j, tail, rfl, ?_⟩
        rw [hdone]
        refine ⟨hok, .inr ?_, hlast, ?_⟩
        · rcases hlive with rfl | hlive
          · exact hd
          · exact hlive
        · rw [hrun, heq, List.append_assoc]

/-- A refused instruction leaves the stack as it was, with these exceptions: a repetition may have taken its operand
off, and the body of a `DIP`, once it is entered, has worked below the slots that are hidden from it. So has a `DUG` if
there are as many slots as can be counted: it finds out that there is one too few only when it has taken off the top one.
Refused code leaves what its refused instruction leaves. -/
theorem refusal_leaves (s : State) (e : Failure TypeError) :
    (∀ i : Instr,
      let run := i.check.run s
      run.outcome = .error e →
        run.state.stack.frames = s.stack.frames ∧
        (i.opcode ≠ .dip → i.opcode ≠ .loop → i.opcode ≠ .iter →
          run.state.stack = s.stack ∨
            i.opcode = .dug ∧ s.stack.visible.length = Size.max ∧
              run.state.stack.visible = s.stack.visible.tail) ∧
        (i.opcode = .loop ∨ i.opcode = .iter →
          run.state.stack.visible = s.stack.visible ∨
            ∃ x, s.stack.visible = x :: run.state.stack.visible) ∧
        (i.opcode = .dip →
          (run.events = [] → run.state.stack = s.stack) ∧
          ∀ n, DipHeight i.args n → n ≤ s.stack.visible.length →
            ∃ below, run.state.stack.visible = s.stack.visible.take n ++ below)) ∧
    ∀ code : List Instr, ((checkCode code).run s).outcome = .error e →
      ∃ done i rest, code = done ++ i :: rest ∧
        let reached := (checkCode done).run s
        let last := i.check.run reached.state
        reached.outcome = .ok () ∧ (done = [] ∨ reached.state.stack.diverged = false) ∧
          last.outcome = .error e ∧ ((checkCode code).run s).state.stack = last.state.stack := by
  constructor
  · rintro ⟨op, args⟩ run he
    obtain ⟨ctx, slots, frames⟩ := s
    have hrun : run = ((Instr.check ⟨op, args⟩).effect ctx slots).run ctx frames :=
      instr_confined ⟨op, args⟩ ctx slots frames
    rw [hrun] at he ⊢
    refine ⟨rfl, fun hd hl hi => ?_, fun hr => ?_, fun hd => ?_⟩
    · rcases Instr.asFound_of_refused hd hl hi he with hleft | hdug
      · exact .inl (by rw [Effect.run, hleft])
      · exact .inr hdug
    · have hs : (Instr.check ⟨op, args⟩).RefusedLeaving AtMostPopped :=
        Instr.refusedLeaving (fun _ => .inl rfl) (.repetition operands_confined hr)
      exact hs ctx slots e he
    · obtain rfl : op = .dip := hd
      obtain ⟨hquiet, hbelow⟩ := dip_instr_refused he
      refine ⟨fun hev => ?_, fun n hn _ => hbelow n hn⟩
      rw [Effect.run, hquiet hev]
  · intro code he
    obtain ⟨done, i, rest, hcode, hok, hlive, hlast, heq⟩ := checkCode_refused he
    exact ⟨done, i, rest, hcode, hok, hlive, hlast, by rw [heq]⟩

/-- A loop below a slot that is set aside, with a body that finds too few slots. The loop has taken its operand off by
then, the slot is back in its place, and what is hidden further up has not been touched. -/
theorem refusal_leaves_loop_in_dip :
    let dip : Instr := ⟨.dip, [.code [⟨.loop, [.code [⟨.drop, [.ofInt 2]⟩]]⟩]]⟩
    let run := dip.check.run ⟨.ofConfig {}, ⟨[.unit, .bool, .int], [[.nat]]⟩⟩
    run.outcome = .refuse (.stackLength (some .drop) 2 1) ∧ run.state.stack.frames = [[.nat]] ∧
      run.state.stack.visible ≠ [.unit, .bool, .int] ∧
      ∃ below, run.state.stack.visible = [.unit] ++ below := by
  intro dip run
  have ho : run.outcome = .refuse (.stackLength (some .drop) 2 1) := by cbv
  have hleft : run.state.stack.visible = [.unit, .int] := by cbv
  obtain ⟨hframes, -, -, hdip⟩ := (refusal_leaves _ _).1 dip ho
  refine ⟨ho, hframes, ?_, (hdip rfl).2 1 (.inr ⟨_, rfl, rfl⟩) (by decide)⟩
  rw [hleft]
  simp

end Michelson

import Michelson.Proofs.Dispatch

namespace Michelson

namespace Edit

variable {α β : Type}

/-- Work that sees nothing but the visible slots and changes nothing else. -/
def Confined (m : Edit α) : Prop :=
  ∀ slots, ∃ outcome left, ∀ frames, m.run ⟨slots, frames⟩ = (outcome, ⟨left, frames⟩)

theorem Confined.bind {m : Edit α} {f : α → Edit β} (hm : m.Confined) (hf : ∀ a, (f a).Confined) :
    (m >>= f).Confined := by
  intro slots
  obtain ⟨outcome, left, hrun⟩ := hm slots
  cases outcome with
  | error e => exact ⟨_, left, fun frames => run_bind_of_error (hrun frames) f⟩
  | ok a =>
    obtain ⟨outcome, left, hrest⟩ := hf a left
    exact ⟨outcome, left, fun frames => (run_bind_of_ok (hrun frames) f).trans (hrest frames)⟩

theorem Confined.pure (a : α) : (pure a : Edit α).Confined :=
  fun slots => ⟨_, slots, fun _ => rfl⟩

theorem Confined.lift (x : Outcome TypeError α) : (lift x).Confined :=
  fun slots => ⟨x, slots, fun _ => run_lift x _⟩

theorem Confined.require (op : Opcode) (n : Nat) : (require op n).Confined :=
  fun slots => ⟨_, slots, run_require op n slots⟩

theorem Confined.slot (depth : Nat) : (slot depth).Confined :=
  fun slots => ⟨_, slots, run_slot depth slots⟩

theorem Confined.top (op : Opcode) : (top op).Confined :=
  .bind (.require op 1) fun _ => .slot 0

theorem Confined.visible : visible.Confined :=
  fun slots => ⟨_, slots, fun _ => rfl⟩

theorem Confined.push (t : Ty) : (push t).Confined :=
  fun slots => ⟨_, t :: slots, fun _ => rfl⟩

theorem Confined.pop : pop.Confined := by
  intro slots
  cases slots with
  | nil => exact ⟨_, [], fun _ => rfl⟩
  | cons x rest => exact ⟨_, rest, fun _ => rfl⟩

theorem Confined.diverge : diverge.Confined :=
  fun _ => ⟨_, [.universal], fun _ => rfl⟩

/-- The work of an instruction without nested code is confined: it comes down to its rule, but for `DUG`. -/
theorem Confined.flat (op : Opcode) (args : List Operand) : (flat op args).Confined := by
  intro slots
  obtain ⟨left, -, hrun⟩ := run_flat op args slots
  cases hr : Rule.plain op args slots with
  | ok out => exact ⟨_, out, fun frames => (hrun frames).trans (by rw [hr, settle_ok])⟩
  | error e => exact ⟨_, left, fun frames => (hrun frames).trans (by rw [hr, settle_error])⟩

theorem Confined.prepare (c : Conditional) (branch : Branch) : (c.prepare branch).Confined := by
  refine .bind .pop fun x => ?_
  split
  · exact .pure ()
  · exact .pure ()
  · exact .pure ()
  · exact .push _
  · exact .push _
  · exact .push _
  · exact .bind (.push _) fun _ => .push _
  · exact .lift _

end Edit

namespace Check

/-- A property of checks that holds of the single steps and is kept by every way to put checks together. Entering and
leaving a scope are not steps of their own: they are part of what a scope makes of the check in it. -/
structure Closed (P : (α : Type) → Check α → Prop) : Prop where
  lift : ∀ {α : Type} (x : Outcome TypeError α), P α (lift x)
  edit : ∀ {α : Type} {m : Edit α}, m.Confined → P _ (edit m)
  checked : ∀ op slots, P _ (emit (.checked op slots))
  diverges : ∀ op side, P _ (emit (.diverges op side))
  bind : ∀ {α β : Type} {m : Check α} {f : α → Check β}, P _ m → (∀ a, P _ (f a)) → P _ (m >>= f)
  protect : ∀ {α : Type} {body : Check α}, P _ body → ∀ n, P _ (protect n body)
  onStack : ∀ {body : Check Unit}, P _ body → ∀ own, P _ (onStack own body)
  inScope : ∀ {α : Type} {body : Check α}, P _ body → ∀ op, P _ (inScope op body)

namespace Closed

variable {P : (α : Type) → Check α → Prop} (h : Closed P)

include h

theorem pure {α : Type} (a : α) : P _ (Pure.pure a) :=
  h.lift (.ok a)

/-- What follows a decision counts only with what has been decided. -/
theorem lift_bind {α β : Type} {x : Outcome TypeError α} {f : α → Check β}
    (hf : ∀ a, x = .ok a → P _ (f a)) : P _ (Check.lift x >>= f) := by
  cases x with
  | error e => exact h.lift (.error e)
  | ok a => exact hf a rfl

theorem visible : P _ visible :=
  h.edit .visible

theorem diverged : P _ diverged :=
  h.edit fun slots => ⟨.ok (isDiverged slots), slots, fun _ => rfl⟩

theorem fork : P _ fork :=
  h.edit fun slots => ⟨.ok (.ofSlots slots), slots, fun _ => rfl⟩

theorem push (t : Ty) : P _ (push t) :=
  h.edit (.push t)

theorem pop : P _ pop :=
  h.edit .pop

theorem reached (op : Opcode) (side : Branch) (own other : Stack) :
    P _ (Conditional.reached op side own other) := by
  refine h.bind (h.lift _) fun never => ?_
  split
  · exact h.bind (h.diverges op side) fun _ => h.pure other
  · exact h.pure own

/-- Joining two branches reports those that are never left and replaces the slots. -/
theorem join (op : Opcode) (a b : Stack) : P _ (Conditional.join op a b) := by
  refine h.bind (h.reached op .onTrue a b) fun a => h.bind (h.reached op .onFalse b a) fun b => ?_
  split
  · exact h.edit fun _ => ⟨.ok (), a.visible, fun _ => rfl⟩
  · exact h.lift _

section

variable {body : Body} (hb : P _ body.check)

include hb

/-- `DIP` is a scope below hidden slots. -/
theorem dip (n : Nat) : P _ (dip n body) := by
  refine h.bind (h.edit (.require .dip n)) fun _ => h.bind (h.protect ?_ n) fun failed => ?_
  · exact h.bind (h.inScope hb .dip) fun _ => h.diverged
  · cases failed
    · exact h.pure ()
    · exact h.edit .diverge

theorem loop : P _ (loop body) := by
  refine h.bind (h.edit (.top .loop)) fun x => ?_
  split
  · refine h.bind h.pop fun _ => h.bind h.fork fun rest => ?_
    exact h.bind (h.onStack (h.inScope hb .loop) rest) fun _ => h.lift _
  · exact h.lift _

theorem iter : P _ (iter body) := by
  refine h.bind (h.edit (.top .iter)) fun x => ?_
  split
  · refine h.bind h.pop fun _ => h.bind h.fork fun rest => ?_
    exact h.bind (h.onStack (h.inScope hb .iter) _) fun _ => h.lift _
  · exact h.lift _

theorem lambda (arg ret : Ty) : P _ (lambda arg ret body) :=
  h.bind (h.onStack (h.inScope hb .lambda) _) fun _ => h.bind (h.lift _) fun _ => h.push _

theorem checkBranch (c : Conditional) (side : Branch) : P _ (c.checkBranch side body) := by
  refine h.bind h.fork fun stack => h.onStack ?_ stack
  exact h.bind (h.edit (.prepare c side)) fun _ => h.inScope hb c.opcode

end

section

variable {args : List Operand} (ha : ∀ body, Operand.code body ∈ args → P _ body.check)

include ha

/-- A conditional is two scopes on stacks of their own, and then a join. -/
theorem conditional (c : Conditional) : P _ (c.check args) := by
  refine h.bind (h.edit (.top c.opcode)) fun x => ?_
  split
  · refine h.lift_bind fun branches hb => ?_
    obtain ⟨ht, hf⟩ := Conditional.mem_of_branches hb
    refine h.bind (h.checkBranch (ha _ ht) c .onTrue) fun a => ?_
    exact h.bind (h.checkBranch (ha _ hf) c .onFalse) fun b => h.join c.opcode a b
  · exact h.lift _

/-- A closed property of the bodies of an instruction is one of its rule. -/
theorem ofOpcode (op : Opcode) : P _ (ofOpcode op args) := by
  unfold Check.ofOpcode
  split
  · refine h.lift_bind fun arg _ => h.lift_bind fun ret _ => h.lift_bind fun body hb => ?_
    exact h.lambda (ha body (Operand.mem_of_codeAt hb)) arg ret
  · exact h.lift_bind fun p hp => h.dip (ha p.2 (mem_of_dipOperands hp)) p.1
  · exact h.lift_bind fun body hb => h.loop (ha body (Operand.mem_of_codeAt hb))
  · exact h.lift_bind fun body hb => h.iter (ha body (Operand.mem_of_codeAt hb))
  · exact h.conditional ha _
  · exact h.conditional ha _
  · exact h.conditional ha _
  · exact h.conditional ha _
  · exact h.edit (.flat op args)

/-- A closed property of the bodies of an instruction is one of the instruction. -/
theorem instruction (op : Opcode) : P _ (instruction op args) :=
  h.bind (h.lift _) fun _ => h.bind (h.ofOpcode ha op) fun _ =>
    h.bind h.visible fun _ => h.checked _ _

end

/-- A closed property holds of all code. -/
theorem checkCode (code : List Instr) : P _ (checkCode code) := by
  induction code using code_induction with
  | nil => exact h.pure ()
  | cons op args rest nested ih =>
    rw [Michelson.checkCode, Instr.check]
    refine h.bind (h.instruction (fun body hb => ?_) op) fun _ => h.bind h.diverged fun lost => ?_
    · obtain ⟨hc, hm⟩ := mem_operands hb
      rw [hc]
      exact nested body.code hm
    · cases lost
      · exact ih
      · exact h.pure ()

end Closed

end Check

end Michelson

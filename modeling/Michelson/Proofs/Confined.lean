import Michelson.Proofs.Closure

namespace Michelson

variable {α β : Type}

/-- What a check makes of visible slots: its outcome, the slots it leaves, also when it is refused, and its events. -/
structure Effect (α : Type) where
  outcome : Outcome TypeError α
  slots : List Ty
  events : List Event

def Effect.run (e : Effect α) (ctx : Context) (frames : List (List Ty)) : Run α :=
  ⟨e.outcome, ⟨ctx, ⟨e.slots, frames⟩⟩, e.events⟩

def Effect.andThen (e : Effect α) (f : α → List Ty → Effect β) : Effect β :=
  match e with
  | ⟨.ok a, slots, events⟩ => { f a slots with events := events ++ (f a slots).events }
  | ⟨.error e, slots, events⟩ => ⟨.error e, slots, events⟩

theorem Effect.andThen_ok (a : α) (slots : List Ty) (events : List Event)
    (f : α → List Ty → Effect β) :
    (⟨.ok a, slots, events⟩ : Effect α).andThen f =
      { f a slots with events := events ++ (f a slots).events } := rfl

/-- A step that reports nothing goes on as if it were not there. -/
theorem Effect.andThen_quiet (a : α) (slots : List Ty) (f : α → List Ty → Effect β) :
    (⟨.ok a, slots, []⟩ : Effect α).andThen f = f a slots := rfl

theorem Effect.andThen_error (e : Failure TypeError) (slots : List Ty) (events : List Event)
    (f : α → List Ty → Effect β) :
    (⟨.error e, slots, events⟩ : Effect α).andThen f = ⟨.error e, slots, events⟩ := rfl

def Effect.below (e : Effect α) (top : List Ty) : Effect α :=
  { e with slots := top ++ e.slots }

def Effect.inScope (e : Effect α) (op : Opcode) (depth : Nat) : Effect α :=
  { e with events := .entering op depth :: (e.events ++ [.leaving op depth]) }

def Context.deeper (ctx : Context) : Context :=
  { ctx with depth := ctx.depth + 1 }

def Context.HasRoom (ctx : Context) : Prop :=
  ctx.depth < ctx.config.maxNestingDepth

instance (ctx : Context) : Decidable ctx.HasRoom :=
  inferInstanceAs (Decidable (_ < _))

namespace Check

def effect (m : Check α) (ctx : Context) (slots : List Ty) : Effect α :=
  let run := m ⟨ctx, .ofSlots slots⟩
  ⟨run.outcome, run.state.stack.visible, run.events⟩

/-- A check that sees nothing but the context and the visible slots, and changes nothing but the latter. -/
def Confined (m : Check α) : Prop :=
  ∀ ctx slots frames, m ⟨ctx, ⟨slots, frames⟩⟩ = (m.effect ctx slots).run ctx frames

theorem bind_apply (m : Check α) (f : α → Check β) (s : State) :
    (m >>= f) s =
      match m s with
      | ⟨.ok a, s, events⟩ => { f a s with events := events ++ (f a s).events }
      | ⟨.error e, s, events⟩ => ⟨.error e, s, events⟩ := rfl

/-- An equation for the runs above all frames gives the effect. -/
theorem effect_eq {m : Check α} {ctx : Context} {slots : List Ty} {e : Effect α}
    (h : ∀ frames, m ⟨ctx, ⟨slots, frames⟩⟩ = e.run ctx frames) : m.effect ctx slots = e := by
  simp only [effect, Stack.ofSlots, h]
  rfl

/-- A check that has an effect, whatever is hidden, is confined. -/
theorem Confined.of_effect {m : Check α} {e : Context → List Ty → Effect α}
    (h : ∀ ctx slots frames, m ⟨ctx, ⟨slots, frames⟩⟩ = (e ctx slots).run ctx frames) :
    m.Confined := by
  intro ctx slots frames
  rw [effect_eq (h ctx slots)]
  exact h ctx slots frames

theorem bind_run {m : Check α} (hm : m.Confined) {f : α → Check β} (hf : ∀ a, (f a).Confined)
    (ctx : Context) (slots : List Ty) (frames : List (List Ty)) :
    (m >>= f) ⟨ctx, ⟨slots, frames⟩⟩ =
      ((m.effect ctx slots).andThen fun a slots => (f a).effect ctx slots).run ctx frames := by
  rw [bind_apply, hm]
  obtain ⟨outcome, left, events⟩ := m.effect ctx slots
  cases outcome with
  | error e => rfl
  | ok a =>
    simp only [Effect.run, Effect.andThen]
    rw [hf a]
    rfl

theorem Confined.bind {m : Check α} (hm : m.Confined) {f : α → Check β}
    (hf : ∀ a, (f a).Confined) : (m >>= f).Confined :=
  .of_effect (bind_run hm hf)

theorem effect_bind {m : Check α} (hm : m.Confined) (f : α → Check β) (ctx : Context)
    (slots : List Ty) :
    (m >>= f).effect ctx slots =
      (m.effect ctx slots).andThen fun a slots => (f a).effect ctx slots := by
  have h := bind_apply m f ⟨ctx, ⟨slots, []⟩⟩
  rw [hm] at h
  conv => lhs; unfold effect Stack.ofSlots; rw [h]
  obtain ⟨outcome, left, events⟩ := m.effect ctx slots
  cases outcome <;> rfl

section

variable (ctx : Context) (slots : List Ty)

theorem effect_pure (a : α) : (pure a : Check α).effect ctx slots = ⟨.ok a, slots, []⟩ := rfl

theorem effect_lift (x : Outcome TypeError α) : (lift x).effect ctx slots = ⟨x, slots, []⟩ := rfl

theorem effect_emit (e : Event) : (emit e).effect ctx slots = ⟨.ok (), slots, [e]⟩ := rfl

theorem effect_visible : visible.effect ctx slots = ⟨.ok slots, slots, []⟩ := rfl

theorem effect_diverged : diverged.effect ctx slots = ⟨.ok (isDiverged slots), slots, []⟩ := rfl

theorem effect_require (op : Opcode) (n : Nat) :
    (edit (Edit.require op n)).effect ctx slots = ⟨Rule.require op n slots, slots, []⟩ := by
  simp [effect, edit, Stack.ofSlots]

theorem effect_replace (new : List Ty) :
    (edit (Edit.replace (.ofSlots new))).effect ctx slots = ⟨.ok (), new, []⟩ := rfl

theorem effect_diverge : (edit Edit.diverge).effect ctx slots = ⟨.ok (), [.universal], []⟩ := rfl

end

theorem Confined.pure (a : α) : (pure a : Check α).Confined := fun _ _ _ => rfl

theorem Confined.lift (x : Outcome TypeError α) : (lift x).Confined := fun _ _ _ => rfl

theorem lift_ok_bind (a : α) (f : α → Check β) : (Check.lift (.ok a) >>= f) = f a := rfl

theorem Confined.emit (e : Event) : (emit e).Confined := fun _ _ _ => rfl

theorem edit_run {m : Edit α} {ctx : Context} {slots left : List Ty} {frames : List (List Ty)}
    {outcome : Outcome TypeError α} (h : m.run ⟨slots, frames⟩ = (outcome, ⟨left, frames⟩)) :
    edit m ⟨ctx, ⟨slots, frames⟩⟩ = Effect.run ⟨outcome, left, []⟩ ctx frames := by
  rw [edit, h]
  rfl

theorem Confined.edit {m : Edit α} (hm : m.Confined) : (edit m).Confined := by
  intro ctx slots frames
  obtain ⟨outcome, left, hrun⟩ := hm slots
  rw [edit_run (hrun frames), effect_eq fun frames => edit_run (hrun frames)]

/-- The body works on the slots below the top `n`, which are back on top in every case in which they were hidden. -/
theorem protect_run {body : Check α} (hb : body.Confined) (n : Nat) (ctx : Context)
    (slots : List Ty) (frames : List (List Ty)) :
    protect n body ⟨ctx, ⟨slots, frames⟩⟩ =
      (if slots.length < n then
        ⟨.refuse (.stackLength none n slots.length), slots, []⟩
      else (body.effect ctx (slots.drop n)).below (slots.take n)).run ctx frames := by
  by_cases h : slots.length < n
  · simp only [protect, Stack.hide_of_lt (s := ⟨slots, frames⟩) h, if_pos h]
    rfl
  · simp only [protect, Stack.hide_of_le (s := ⟨slots, frames⟩) (Nat.not_lt.mp h), if_neg h]
    change ({ body ⟨ctx, ⟨slots.drop n, slots.take n :: frames⟩⟩ with state := _ } : Run α) = _
    rw [hb]
    rfl

/-- What is hidden while a confined check runs is not seen by it. -/
theorem Confined.protect {body : Check α} (hb : body.Confined) (n : Nat) :
    (protect n body).Confined :=
  .of_effect (protect_run hb n)

/-- A protected check works below the slots that it cannot see. -/
theorem effect_protect {body : Check α} (hb : body.Confined) (n : Nat) (ctx : Context)
    (slots : List Ty) :
    (protect n body).effect ctx slots =
      if slots.length < n then ⟨.refuse (.stackLength none n slots.length), slots, []⟩
      else (body.effect ctx (slots.drop n)).below (slots.take n) :=
  effect_eq (protect_run hb n ctx slots)

/-- A check on a stack of its own never touches the stack at hand. -/
theorem onStack_run {body : Check Unit} (hb : body.Confined) (own : Stack) (ctx : Context)
    (slots : List Ty) (frames : List (List Ty)) :
    onStack own body ⟨ctx, ⟨slots, frames⟩⟩ =
      Effect.run ⟨(body.effect ctx own.visible).outcome.map fun _ =>
        ⟨(body.effect ctx own.visible).slots, own.frames⟩, slots,
        (body.effect ctx own.visible).events⟩ ctx frames := by
  rw [onStack]
  simp only [hb ctx own.visible own.frames]
  rfl

theorem Confined.onStack {body : Check Unit} (hb : body.Confined) (own : Stack) :
    (onStack own body).Confined :=
  .of_effect (onStack_run hb own)

/-- A check on a stack of its own leaves the one at hand as it is. -/
theorem effect_onStack {body : Check Unit} (hb : body.Confined) (own : Stack) (ctx : Context)
    (slots : List Ty) :
    (onStack own body).effect ctx slots =
      ⟨(body.effect ctx own.visible).outcome.map fun _ =>
        ⟨(body.effect ctx own.visible).slots, own.frames⟩, slots,
        (body.effect ctx own.visible).events⟩ :=
  effect_eq (onStack_run hb own ctx slots)

/-- The scope that is left is the one that was entered, so the context is as before. -/
theorem inScope_run {body : Check α} (hb : body.Confined) (op : Opcode) (ctx : Context)
    (slots : List Ty) (frames : List (List Ty)) :
    inScope op body ⟨ctx, ⟨slots, frames⟩⟩ =
      (if ctx.HasRoom then (body.effect ctx.deeper slots).inScope op (ctx.depth + 1)
      else ⟨.refuse (.malformed op (.tooDeep ctx.config.maxNestingDepth)), slots, []⟩).run
        ctx frames := by
  by_cases h : ctx.HasRoom
  · have hd : ¬ctx.config.maxNestingDepth ≤ ctx.depth := Nat.not_le.mpr h
    have hr := hb ctx.deeper slots frames
    simp only [Context.deeper] at hr
    simp only [inScope, hd, h, if_true, if_false, hr]
    rfl
  · have hd : ctx.config.maxNestingDepth ≤ ctx.depth := Nat.not_lt.mp h
    simp only [inScope, hd, h, if_true, if_false]
    rfl

theorem Confined.inScope {body : Check α} (hb : body.Confined) (op : Opcode) :
    (inScope op body).Confined :=
  .of_effect (inScope_run hb op)

/-- A scope is refused if there is no room for it, and otherwise reported around what is in it. -/
theorem effect_inScope {body : Check α} (hb : body.Confined) (op : Opcode) (ctx : Context)
    (slots : List Ty) :
    (inScope op body).effect ctx slots =
      if ctx.HasRoom then (body.effect ctx.deeper slots).inScope op (ctx.depth + 1)
      else ⟨.refuse (.malformed op (.tooDeep ctx.config.maxNestingDepth)), slots, []⟩ :=
  effect_eq (inScope_run hb op ctx slots)

/-- Everything that checks are made of is confined. -/
theorem closed_confined : Closed fun _ m => m.Confined where
  lift := .lift
  edit := .edit
  checked _ _ := .emit _
  diverges _ _ := .emit _
  bind hm hf := .bind hm hf
  protect := .protect
  onStack := .onStack
  inScope := .inScope

theorem Confined.visible : visible.Confined :=
  closed_confined.visible

theorem Confined.diverged : diverged.Confined :=
  closed_confined.diverged

theorem Confined.checkBranch {body : Body} (hb : body.check.Confined) (c : Conditional)
    (branch : Branch) : (c.checkBranch branch body).Confined :=
  closed_confined.checkBranch hb c branch

theorem Confined.ofOpcode {args : List Operand}
    (ha : ∀ body, Operand.code body ∈ args → body.check.Confined) (op : Opcode) :
    (ofOpcode op args).Confined :=
  closed_confined.ofOpcode ha op

end Check

namespace Conditional

theorem neverLeft_eq (s : Stack) : neverLeft s = .ok (isUnreached s.visible) := by
  obtain ⟨slots, frames⟩ := s
  cases slots with
  | nil => rfl
  | cons t rest =>
    rw [neverLeft, Stack.top, Stack.get, Stack.require_of_le (by simp [Size.succ, Size.max, Stack.length]),
      Outcome.ok_bind, Stack.slot_eq, slotAt_zero]
    cases t <;> rfl

/-- The slots with which a conditional goes on after its branches. -/
def joined (c : Conditional) (a b : List Ty) : Outcome TypeError (List Ty) :=
  let a := if isUnreached a then b else a
  let b := if isUnreached b then a else b
  if slotsEqual a b then .ok a else .refuse (.branches c.opcode (.ofSlots a) (.ofSlots b))

def unreachedEvents (c : Conditional) (side : Branch) (own : List Ty) : List Event :=
  if isUnreached own then [.diverges c.opcode side] else []

section

variable (c : Conditional) (a b : List Ty) (ctx : Context) (slots : List Ty)

theorem effect_reached (side : Branch) :
    (reached c.opcode side (.ofSlots a) (.ofSlots b)).effect ctx slots =
      ⟨.ok (.ofSlots (if isUnreached a then b else a)), slots, c.unreachedEvents side a⟩ := by
  rw [reached, neverLeft_eq, Check.lift_ok_bind, unreachedEvents]
  change Check.effect (if isUnreached a then _ else _) _ _ = _
  split <;> rfl

/-- Two branches are joined, and those that are never left are reported. -/
theorem effect_join :
    (join c.opcode (.ofSlots a) (.ofSlots b)).effect ctx slots =
      match c.joined a b with
      | .ok out => ⟨.ok (), out, c.unreachedEvents .onTrue a ++ c.unreachedEvents .onFalse b⟩
      | .error e => ⟨.error e, slots, c.unreachedEvents .onTrue a ++ c.unreachedEvents .onFalse b⟩ := by
  rw [join, Check.effect_bind (Check.closed_confined.reached _ _ _ _), effect_reached,
    Effect.andThen_ok, Check.effect_bind (Check.closed_confined.reached _ _ _ _), effect_reached,
    Effect.andThen_ok, joined]
  dsimp only
  generalize (if isUnreached a then b else a) = a'
  generalize (if isUnreached b then a' else b) = b'
  by_cases h : slotsEqual a' b'
  · rw [if_pos h, if_pos (show (Stack.ofSlots a').equals (.ofSlots b') from h)]
    simp only [Check.effect_replace, List.append_nil]
  · rw [if_neg h, if_neg (show ¬(Stack.ofSlots a').equals (.ofSlots b') from h)]
    simp only [Check.refuse, Check.effect_lift, Outcome.refuse, List.append_nil]

end

end Conditional

/-- Code sees nothing of what is hidden. -/
theorem checkCode_confined (code : List Instr) : (checkCode code).Confined :=
  Check.closed_confined.checkCode code

theorem instr_confined (i : Instr) : i.check.Confined := by
  obtain ⟨op, args⟩ := i
  rw [Instr.check]
  refine Check.closed_confined.instruction (fun body hb => ?_) op
  rw [(mem_operands hb).1]
  exact checkCode_confined body.code

namespace Check

/-- `DIP` once its body has ended: the top slots are put back, unless all is lost. -/
def dipEnd (top : List Ty) (e : Effect Unit) : Effect Unit :=
  match e with
  | ⟨.ok (), slots, events⟩ =>
    ⟨.ok (), if isDiverged slots then [.universal] else top ++ slots, events⟩
  | ⟨.error f, slots, events⟩ => ⟨.error f, top ++ slots, events⟩

/-- `DIP` works below the top slots, and puts them back unless all is lost. -/
theorem effect_dip {body : Body} (hb : body.check.Confined) (n : Nat) (ctx : Context)
    (slots : List Ty) :
    (dip n body).effect ctx slots =
      if slots.length < n then ⟨.refuse (.stackLength (some .dip) n slots.length), slots, []⟩
      else if ctx.HasRoom then
        dipEnd (slots.take n)
          ((body.check.effect ctx.deeper (slots.drop n)).inScope .dip (ctx.depth + 1))
      else ⟨.refuse (.malformed .dip (.tooDeep ctx.config.maxNestingDepth)), slots, []⟩ := by
  have inner := Confined.bind (Confined.inScope hb .dip) fun _ => .diverged
  simp only [dip, effect_bind (.edit (.require .dip n)), effect_require]
  by_cases hn : slots.length < n
  · rw [Rule.require_of_lt .dip hn, if_pos hn]
    rfl
  · rw [Rule.require_of_le .dip (Nat.not_lt.mp hn), if_neg hn]
    simp only [Effect.andThen_quiet, effect_bind (.protect inner n), effect_protect inner, if_neg hn,
      effect_bind (.inScope hb .dip), effect_inScope hb, effect_diverged]
    by_cases hr : ctx.HasRoom
    · simp only [if_pos hr]
      obtain ⟨outcome, left, events⟩ := body.check.effect ctx.deeper (slots.drop n)
      cases outcome with
      | error e => rfl
      | ok u =>
        simp only [Effect.inScope, Effect.andThen_ok, Effect.below, dipEnd]
        cases isDiverged left <;> simp [effect_diverge, effect_pure]
    · simp only [if_neg hr, Outcome.refuse, Effect.andThen_error, Effect.below, List.take_append_drop]

/-- An instruction reports the slots that it leaves. -/
theorem effect_instruction {op : Opcode} {args : List Operand}
    (ha : ∀ body, Operand.code body ∈ args → body.check.Confined)
    (hn : Operand.count op args = .ok ()) (ctx : Context) (slots : List Ty) :
    (instruction op args).effect ctx slots =
      ((ofOpcode op args).effect ctx slots).andThen fun _ slots =>
        ⟨.ok (), slots, [.checked op slots]⟩ := by
  rw [instruction, effect_bind (.lift _), effect_lift, hn, Effect.andThen_quiet,
    effect_bind (.ofOpcode ha op)]
  simp only [effect_bind .visible, effect_visible, Effect.andThen_quiet, effect_emit]

end Check

/-- Arguments with which `DIP` works on the slots below the top `n`. Without a number it is the top one that is
hidden. -/
def IsDip (args : List Arg) (n : Nat) (body : List Instr) : Prop :=
  args = [.ofInt n, .code body] ∧ n ≤ Size.max ∨ args = [.code body] ∧ n = 1

theorem IsDip.count {args : List Arg} {n : Nat} {body : List Instr} (h : IsDip args n body) :
    Operand.count .dip (operands args) = .ok () := by
  rcases h with ⟨rfl, -⟩ | ⟨rfl, -⟩ <;> rfl

theorem IsDip.dipOperands {args : List Arg} {n : Nat} {body : List Instr} (h : IsDip args n body) :
    Check.dipOperands (operands args) = .ok (n, ⟨body, checkCode body⟩) := by
  rcases h with ⟨rfl, hn⟩ | ⟨rfl, rfl⟩
  · simp only [operands, Arg.operand, Arg.ofInt, Check.dipOperands]
    simp only [Operand.natAt, List.getElem?_cons_zero, hn, if_true]
    rfl
  · rfl

/-- The effect of a `DIP` that has the slots to hide and a scope to open: that of its body below them. -/
theorem effect_dip_instr {args : List Arg} {n : Nat} {body : List Instr} (h : IsDip args n body)
    {ctx : Context} (hr : ctx.HasRoom) {top : List Ty} (hn : top.length = n) (rest : List Ty) :
    (Instr.check ⟨.dip, args⟩).effect ctx (top ++ rest) =
      (Check.dipEnd top (((checkCode body).effect ctx.deeper rest).inScope .dip
        (ctx.depth + 1))).andThen fun _ slots => ⟨.ok (), slots, [.checked .dip slots]⟩ := by
  subst hn
  rw [Instr.check, Check.effect_instruction (fun b hb => ?_) h.count]
  · have hd : Check.ofOpcode .dip (operands args) =
        Check.dip top.length ⟨body, checkCode body⟩ := by
      simp only [Check.ofOpcode, h.dipOperands]
      rfl
    rw [hd, Check.effect_dip (checkCode_confined body), if_neg (by simp), if_pos hr,
      List.take_left, List.drop_left]
  · rw [(mem_operands hb).1]
    exact checkCode_confined b.code

/-- Hidden frames are left as they are and make no difference, on success and on refusal alike. So `DIP` does what its
body does below the top slots: it fails as the body fails and diverges as it diverges. -/
theorem frames_invisible (ctx : Context) (frames : List (List Ty)) :
    (∀ (code : List Instr) (slots : List Ty),
      let run := (checkCode code).run ⟨ctx, ⟨slots, frames⟩⟩
      let bare := (checkCode code).run ⟨ctx, .ofSlots slots⟩
      run.state.stack.frames = frames ∧ run.outcome = bare.outcome ∧
        run.state.stack.visible = bare.state.stack.visible ∧
        run.state.context = bare.state.context ∧ run.events = bare.events) ∧
    ∀ (n : Nat) (args : List Arg) (body : List Instr) (top rest : List Ty),
      IsDip args n body → top.length = n → ctx.HasRoom →
      let inner := (checkCode body).run ⟨ctx.deeper, .ofSlots rest⟩
      let left := inner.state.stack.visible
      let dip := (Instr.check ⟨.dip, args⟩).run ⟨ctx, ⟨top ++ rest, frames⟩⟩
      (∀ e, inner.outcome = .error e →
        dip.outcome = .error e ∧ dip.state.stack.visible = top ++ left) ∧
      (inner.outcome = .ok () → left = [.universal] →
        dip.outcome = .ok () ∧ dip.state.stack.visible = [.universal]) ∧
      (inner.outcome = .ok () → left ≠ [.universal] →
        dip.outcome = .ok () ∧ dip.state.stack.visible = top ++ left) := by
  constructor
  · intro code slots
    have h := checkCode_confined code ctx slots
    simp only [Check.run, Stack.ofSlots, h]
    exact ⟨rfl, rfl, rfl, rfl, rfl⟩
  · intro n args body top rest hargs hn hr
    have hdip := instr_confined ⟨.dip, args⟩ ctx (top ++ rest) frames
    have hbody := checkCode_confined body ctx.deeper rest []
    rw [effect_dip_instr hargs hr hn] at hdip
    simp only [Check.run, Stack.ofSlots, hdip, hbody]
    obtain ⟨outcome, left, events⟩ := (checkCode body).effect ctx.deeper rest
    cases outcome with
    | error e =>
      refine ⟨fun e' he => ?_, fun he => ?_, fun he => ?_⟩
      · cases he
        exact ⟨rfl, rfl⟩
      · cases he
      · cases he
    | ok u =>
      refine ⟨fun e he => ?_, fun _ hl => ?_, fun _ hl => ?_⟩
      · cases he
      · cases hl
        exact ⟨rfl, rfl⟩
      · have hd : isDiverged left = false := by
          rwa [← Bool.not_eq_true, isDiverged_iff]
        simp [Effect.inScope, Check.dipEnd, Effect.andThen_ok, Effect.run, hd]

/-- A body that drops more than it is shown fails, and the slot hidden from it is still on top. -/
theorem frames_invisible_drop :
    let dip : Instr := ⟨.dip, [.ofInt 1, .code [⟨.unit, []⟩, ⟨.drop, [.ofInt 3]⟩]]⟩
    let run := dip.check.run ⟨.ofConfig {}, ⟨[.nat, .int], [[.bool]]⟩⟩
    run.outcome = .refuse (.stackLength (some .drop) 3 2) ∧
      run.state.stack.visible = [.nat, .unit, .int] :=
  ((frames_invisible (.ofConfig {}) [[.bool]]).2 1 _ _ [.nat] [.int] (.inl ⟨rfl, by decide⟩) rfl
    (by decide)).1 _ rfl

end Michelson

import Michelson.Proofs.Confined

namespace Michelson

variable {α : Type}

def Effect.left (e : Effect Unit) : Outcome TypeError (List Ty) :=
  e.outcome.map fun _ => e.slots

namespace Check

/-- What a check makes of visible slots. -/
def rule (m : Check Unit) (ctx : Context) : Rule := fun slots =>
  (m.effect ctx slots).left

section

variable {m : Check Unit} (hm : m.Confined) {s : State}

include hm

/-- The rule of a confined check tells its runs from any state. -/
theorem rule_eq_run :
    m.rule s.context s.stack.visible = (m.run s).outcome.map fun _ => (m.run s).state.stack.visible := by
  obtain ⟨ctx, slots, frames⟩ := s
  rw [run, hm]
  rfl

theorem rule_eq_ok_iff {out : List Ty} :
    m.rule s.context s.stack.visible = .ok out ↔
      (m.run s).outcome = .ok () ∧ (m.run s).state.stack.visible = out := by
  rw [rule_eq_run hm]
  cases (m.run s).outcome <;> simp [Except.map]

theorem rule_eq_error_iff {e : Failure TypeError} :
    m.rule s.context s.stack.visible = .error e ↔ (m.run s).outcome = .error e := by
  rw [rule_eq_run hm]
  cases (m.run s).outcome <;> simp [Except.map]

end

/-- Where the rule of a check succeeds, so does its run, and nothing but the visible slots is changed. -/
theorem Confined.run_of_rule {m : Check Unit} (hm : m.Confined) {ctx : Context} {slots out : List Ty}
    (h : m.rule ctx slots = .ok out) (frames : List (List Ty)) :
    (m.run ⟨ctx, ⟨slots, frames⟩⟩).outcome = .ok () ∧
      (m.run ⟨ctx, ⟨slots, frames⟩⟩).state = ⟨ctx, ⟨out, frames⟩⟩ := by
  obtain ⟨ho, hv⟩ := (rule_eq_ok_iff hm (s := ⟨ctx, ⟨slots, frames⟩⟩)).mp h
  refine ⟨ho, ?_⟩
  rw [← hv, run, hm]
  rfl

theorem Confined.outcome_eq_ok_iff {m : Check Unit} (hm : m.Confined) {ctx : Context}
    {slots : List Ty} {frames : List (List Ty)} :
    (m.run ⟨ctx, ⟨slots, frames⟩⟩).outcome = .ok () ↔ ∃ out, m.rule ctx slots = .ok out := by
  constructor
  · intro h
    exact ⟨_, (rule_eq_ok_iff hm (s := ⟨ctx, ⟨slots, frames⟩⟩)).mpr ⟨h, rfl⟩⟩
  · rintro ⟨out, h⟩
    exact (hm.run_of_rule h frames).1

/-- Where the rules of two checks come to the same, so do their runs, but for their events and what they leave when they
are refused. -/
theorem Confined.run_congr {m m' : Check Unit} (hm : m.Confined) (hm' : m'.Confined) {ctx : Context}
    {slots slots' : List Ty} (h : m.rule ctx slots = m'.rule ctx slots') (frames : List (List Ty)) :
    let run := m.run ⟨ctx, ⟨slots, frames⟩⟩
    let run' := m'.run ⟨ctx, ⟨slots', frames⟩⟩
    run.outcome = run'.outcome ∧ (run.outcome = .ok () → run.state = run'.state) := by
  intro run run'
  cases hr : m.rule ctx slots with
  | error e =>
    have he : run.outcome = .error e := (rule_eq_error_iff hm (s := ⟨ctx, ⟨slots, frames⟩⟩)).mp hr
    have he' : run'.outcome = .error e :=
      (rule_eq_error_iff hm' (s := ⟨ctx, ⟨slots', frames⟩⟩)).mp (h ▸ hr)
    refine ⟨he.trans he'.symm, fun hok => ?_⟩
    cases he.symm.trans hok
  | ok out =>
    obtain ⟨ho, hstate⟩ := hm.run_of_rule hr frames
    obtain ⟨ho', hstate'⟩ := hm'.run_of_rule (h ▸ hr) frames
    exact ⟨ho.trans ho'.symm, fun _ => hstate.trans hstate'.symm⟩

section

variable (ctx : Context) (slots : List Ty)

theorem rule_bind {m : Check α} (hm : m.Confined) (f : α → Check Unit) :
    (m >>= f).rule ctx slots =
      (m.effect ctx slots).outcome >>= fun a => (f a).rule ctx (m.effect ctx slots).slots := by
  rw [rule, effect_bind hm]
  obtain ⟨outcome, left, events⟩ := m.effect ctx slots
  cases outcome <;> rfl

theorem rule_seq {m : Check Unit} (hm : m.Confined) (f : Unit → Check Unit) :
    (m >>= f).rule ctx slots = m.rule ctx slots >>= (f ()).rule ctx := by
  rw [rule_bind ctx slots hm, rule, Effect.left]
  cases (m.effect ctx slots).outcome <;> rfl

theorem rule_lift_bind (x : Outcome TypeError α) (f : α → Check Unit) :
    (lift x >>= f).rule ctx slots = x >>= fun a => (f a).rule ctx slots :=
  rule_bind ctx slots (.lift x) f

theorem rule_lift (x : Outcome TypeError Unit) :
    (lift x).rule ctx slots = x >>= fun _ => .ok slots := by
  cases x <;> rfl

theorem rule_pure : (pure () : Check Unit).rule ctx slots = .ok slots := rfl

theorem rule_diverged_bind (f : Bool → Check Unit) :
    (diverged >>= f).rule ctx slots = (f (isDiverged slots)).rule ctx slots :=
  rule_bind ctx slots .diverged f

theorem rule_fork_bind (f : Stack → Check Unit) :
    (fork >>= f).rule ctx slots = (f (.ofSlots slots)).rule ctx slots :=
  rule_bind ctx slots closed_confined.fork f

theorem rule_push (t : Ty) : (push t).rule ctx slots = .ok (t :: slots) := rfl

/-- An instruction without nested code follows its rule. -/
theorem rule_flat (op : Opcode) (args : List Operand) :
    (edit (Edit.flat op args)).rule ctx slots = Rule.plain op args slots := by
  obtain ⟨left, -, hrun⟩ := Edit.run_flat op args slots
  simp only [rule, effect, edit, Stack.ofSlots, hrun []]
  cases Rule.plain op args slots <;> rfl

/-- A scope changes nothing but the context, and nothing is done without room for it. -/
theorem rule_inScope {body : Check Unit} (hb : body.Confined) (op : Opcode) :
    (inScope op body).rule ctx slots =
      if ctx.HasRoom then body.rule ctx.deeper slots
      else .refuse (.malformed op (.tooDeep ctx.config.maxNestingDepth)) := by
  rw [rule, effect_inScope hb]
  split <;> rfl

theorem rule_onStack_bind {body : Check Unit} (hb : body.Confined) (own : Stack)
    (f : Stack → Check Unit) :
    (onStack own body >>= f).rule ctx slots =
      body.rule ctx own.visible >>= fun out => (f ⟨out, own.frames⟩).rule ctx slots := by
  rw [rule_bind ctx slots (.onStack hb own), effect_onStack hb, rule, Effect.left]
  cases (body.effect ctx own.visible).outcome <;> rfl

/-- Reading the top slot in the name of an instruction. -/
theorem rule_top_bind (op : Opcode) (f : Ty → Check Unit) :
    (edit (Edit.top op) >>= f).rule ctx slots =
      Rule.onTop op (fun x rest => (f x).rule ctx (x :: rest)) slots := by
  rw [rule_bind ctx slots (.edit (.top op))]
  cases slots with
  | nil => rfl
  | cons x rest =>
    rw [effect_eq fun frames => edit_run (Edit.run_top op x rest frames)]
    rfl

theorem rule_pop_bind (x : Ty) (f : Ty → Check Unit) :
    (pop >>= f).rule ctx (x :: slots) = (f x).rule ctx slots :=
  rule_bind ctx (x :: slots) closed_confined.pop f

end

end Check

/-- What a body makes of slots in a scope of the instruction it belongs to. -/
def Body.rule (body : Body) (op : Opcode) (ctx : Context) : Rule :=
  (Check.inScope op body.check).rule ctx

namespace Conditional

def parts (c : Conditional) (branch : Branch) (t : Ty) : Outcome TypeError (List Ty) :=
  match c, branch, t with
  | ifBool, _, _ | ifNone, .onTrue, _ | ifCons, .onFalse, _ => .ok []
  | ifNone, .onFalse, .option t => .ok [t]
  | ifLeft, .onTrue, .or l _ => .ok [l]
  | ifLeft, .onFalse, .or _ r => .ok [r]
  | ifCons, .onTrue, .list t => .ok [t, .list t]
  | _, _, _ => .stop (.unpreparedBranch c.opcode)

/-- A branch finds the parts of the value in its place. -/
theorem rule_prepare (c : Conditional) (branch : Branch) (x : Ty) (ctx : Context) (rest : List Ty) :
    (Check.edit (c.prepare branch)).rule ctx (x :: rest) = (c.parts branch x).map (· ++ rest) := by
  cases c <;> cases branch <;> cases x <;> rfl

end Conditional

namespace Rule

def endsWith (op : Opcode) (expected slots : List Ty) : Outcome TypeError Unit :=
  if isDiverged slots then .ok ()
  else if slots.length ≠ expected.length then
    .refuse (.stackLength (some op) expected.length slots.length)
  else if slotsEqual slots expected then .ok ()
  else .refuse (.stackTop op expected slots)

def returns (ret : Ty) (slots : List Ty) : Outcome TypeError Unit :=
  if isDiverged slots then .ok ()
  else
    match slots with
    | [t] => if t.equals ret then .ok () else .refuse (.lambdaType .lambda ret t)
    | _ => .refuse (.stackLength (some .lambda) 1 slots.length)

def dip (n : Nat) (body : Rule) : Rule := fun slots => do
  require .dip n slots
  let out ← body (slots.drop n)
  return if isDiverged out then [.universal] else slots.take n ++ out

/-- A body that is run again and again. It starts with `enter` above the slots at hand and ends with `leave` there. -/
def repeated (op : Opcode) (enter leave : List Ty) (body : Rule) : Rule := fun rest => do
  let out ← body (enter ++ rest)
  endsWith op (leave ++ rest) out
  return rest

def loop (body : Rule) : Rule :=
  onTop .loop fun x =>
    if x = .bool then repeated .loop [] [.bool] body
    else fun _ => .refuse (.stackTop .loop [.bool] [x])

def iter (body : Rule) : Rule :=
  onTop .iter fun x =>
    match Check.elements? x with
    | .some t => repeated .iter [t] [] body
    | .none => fun _ => .refuse (.operand .iter
        [.list (.var "a"), .set (.var "a"), .map (.var "k") (.var "v")] [x])

def lambda (arg ret : Ty) (code : List Instr) (body : Rule) : Rule := fun slots => do
  let out ← body [arg]
  returns ret out
  return .function arg ret code :: slots

def branch (c : Conditional) (side : Branch) (x : Ty) (body : Rule) : Rule := fun rest => do
  let parts ← c.parts side x
  body (parts ++ rest)

def conditional (c : Conditional) (branches : Outcome TypeError (Rule × Rule)) : Rule :=
  onTop c.opcode fun x rest =>
    if c.accepts x then do
      let (onTrue, onFalse) ← branches
      let a ← branch c .onTrue x onTrue rest
      let b ← branch c .onFalse x onFalse rest
      c.joined a b
    else .refuse (.stackTop c.opcode [c.expected] [x])

def branches (c : Conditional) (args : List Operand) (ctx : Context) :
    Outcome TypeError (Rule × Rule) := do
  let (onTrue, onFalse) ← c.branches args
  return (onTrue.rule c.opcode ctx, onFalse.rule c.opcode ctx)

def ofOpcode (op : Opcode) (args : List Operand) (ctx : Context) : Rule := fun slots =>
  match op with
  | .lambda => do
    let arg ← Operand.typeAt op args 0
    let ret ← Operand.typeAt op args 1
    let body ← Operand.codeAt op args 2
    lambda arg ret body.code (body.rule .lambda ctx) slots
  | .dip => do
    let (n, body) ← Check.dipOperands args
    dip n (body.rule .dip ctx) slots
  | .loop => do
    let body ← Operand.codeAt op args 0
    loop (body.rule .loop ctx) slots
  | .iter => do
    let body ← Operand.codeAt op args 0
    iter (body.rule .iter ctx) slots
  | .ifBool => conditional .ifBool (branches .ifBool args ctx) slots
  | .ifNone => conditional .ifNone (branches .ifNone args ctx) slots
  | .ifLeft => conditional .ifLeft (branches .ifLeft args ctx) slots
  | .ifCons => conditional .ifCons (branches .ifCons args ctx) slots
  | _ => plain op args slots

end Rule

theorem Rule.exists_of_branches {c : Conditional} {args : List Operand} {ctx : Context}
    {p : Rule × Rule} (h : branches c args ctx = .ok p) :
    ∃ onTrue onFalse : Body, Operand.code onTrue ∈ args ∧ Operand.code onFalse ∈ args ∧
      p = (onTrue.rule c.opcode ctx, onFalse.rule c.opcode ctx) := by
  obtain ⟨⟨onTrue, onFalse⟩, hb, hp⟩ := Outcome.bind_eq_ok.mp h
  obtain ⟨ht, hf⟩ := Conditional.mem_of_branches hb
  cases hp
  exact ⟨onTrue, onFalse, ht, hf, rfl⟩

/-- What an instruction can be: a property of rules that decisions on the arguments keep holds of every instruction, if
it holds of the plain ones and of each kind that has a body. -/
theorem Rule.ofOpcode_cases {P : Rule → Prop} {op : Opcode} {args : List Operand} {ctx : Context}
    (bind : ∀ {α : Type} {x : Outcome TypeError α} {f : α → Rule}, (∀ a, x = .ok a → P (f a)) →
      P fun slots => x >>= fun a => f a slots)
    (plain : op.hasBody = false → P (plain op args))
    (lambda : op = .lambda → ∀ arg ret body, Operand.type arg ∈ args → Operand.type ret ∈ args →
      Operand.code body ∈ args → P (lambda arg ret body.code (body.rule op ctx)))
    (dip : op = .dip → ∀ n body, Operand.code body ∈ args → P (dip n (body.rule op ctx)))
    (loop : op = .loop → ∀ body, Operand.code body ∈ args → P (loop (body.rule op ctx)))
    (iter : op = .iter → ∀ body, Operand.code body ∈ args → P (iter (body.rule op ctx)))
    (conditional : ∀ c : Conditional, op = c.opcode → P (conditional c (branches c args ctx))) :
    P (ofOpcode op args ctx) := by
  cases op with
  | lambda =>
    refine bind fun arg ha => bind fun ret hr => bind fun body hb => ?_
    exact lambda rfl arg ret body (Operand.mem_of_typeAt ha) (Operand.mem_of_typeAt hr)
      (Operand.mem_of_codeAt hb)
  | dip => exact bind fun p hp => dip rfl p.1 p.2 (Check.mem_of_dipOperands hp)
  | loop => exact bind fun body hb => loop rfl body (Operand.mem_of_codeAt hb)
  | iter => exact bind fun body hb => iter rfl body (Operand.mem_of_codeAt hb)
  | ifBool => exact conditional .ifBool rfl
  | ifNone => exact conditional .ifNone rfl
  | ifLeft => exact conditional .ifLeft rfl
  | ifCons => exact conditional .ifCons rfl
  | _ => exact plain rfl

namespace Check

theorem returns_eq (ret : Ty) (left : Stack) : returns ret left = Rule.returns ret left.visible := by
  obtain ⟨slots, frames⟩ := left
  unfold returns Rule.returns
  cases h : isDiverged slots with
  | true => simp [Stack.diverged, h]
  | false =>
    match slots with
    | [t] => simp [Stack.diverged, h, Stack.length, Stack.slot_eq]
    | [] | _ :: _ :: _ => simp [Stack.diverged, h, Stack.length]

section

variable {body : Body} (hb : body.check.Confined) (ctx : Context) (slots : List Ty)

include hb

theorem rule_dip (n : Nat) :
    (dip n body).rule ctx slots = Rule.dip n (body.rule .dip ctx) slots := by
  rw [rule, effect_dip hb, Rule.dip, Body.rule, rule_inScope _ _ hb]
  by_cases hn : slots.length < n
  · rw [if_pos hn, Rule.require_of_lt .dip hn]
    rfl
  · rw [if_neg hn, Rule.require_of_le .dip (Nat.not_lt.mp hn)]
    by_cases hr : ctx.HasRoom
    · rw [if_pos hr, if_pos hr, rule]
      obtain ⟨outcome, left, events⟩ := body.check.effect ctx.deeper (slots.drop n)
      cases outcome <;> rfl
    · rw [if_neg hr, if_neg hr]
      rfl

theorem rule_loop : (loop body).rule ctx slots = Rule.loop (body.rule .loop ctx) slots := by
  rw [loop, rule_top_bind, Rule.loop]
  congr 1
  funext x rest
  split
  · rw [rule_pop_bind, rule_fork_bind, rule_onStack_bind _ _ (.inScope hb .loop)]
    simp only [rule_lift]
    rfl
  · rfl

theorem rule_iter : (iter body).rule ctx slots = Rule.iter (body.rule .iter ctx) slots := by
  rw [iter, rule_top_bind, Rule.iter]
  congr 1
  funext x rest
  cases elements? x with
  | none => rfl
  | some t =>
    rw [rule_pop_bind, rule_fork_bind, rule_onStack_bind _ _ (.inScope hb .iter)]
    simp only [rule_lift]
    rfl

theorem rule_lambda (arg ret : Ty) :
    (lambda arg ret body).rule ctx slots =
      Rule.lambda arg ret body.code (body.rule .lambda ctx) slots := by
  rw [lambda, rule_onStack_bind _ _ (.inScope hb .lambda)]
  simp only [rule_lift_bind, rule_push, returns_eq]
  rfl

theorem rule_checkBranch_bind (c : Conditional) (side : Branch) (x : Ty) (rest : List Ty)
    (f : Stack → Check Unit) :
    (c.checkBranch side body >>= f).rule ctx (x :: rest) =
      Rule.branch c side x (body.rule c.opcode ctx) rest >>= fun out =>
        (f (.ofSlots out)).rule ctx (x :: rest) := by
  have hprepare : (edit (c.prepare side)).Confined := .edit (.prepare c side)
  rw [Conditional.checkBranch, bind_assoc, rule_fork_bind,
    rule_onStack_bind _ _ (.bind hprepare fun _ => .inScope hb c.opcode), rule_seq _ _ hprepare]
  change (edit (c.prepare side)).rule ctx (x :: rest) >>= _ >>= _ = _
  rw [c.rule_prepare, Rule.branch]
  cases c.parts side x <;> rfl

end

theorem rule_join (c : Conditional) (a b : List Ty) (ctx : Context) (slots : List Ty) :
    (Conditional.join c.opcode (.ofSlots a) (.ofSlots b)).rule ctx slots = c.joined a b := by
  rw [rule, c.effect_join]
  cases c.joined a b <;> rfl

section

variable {args : List Operand} (ha : ∀ body, Operand.code body ∈ args → body.check.Confined)
  (ctx : Context) (slots : List Ty)

include ha

/-- A conditional follows the rules of its branches. -/
theorem rule_conditional (c : Conditional) :
    (c.check args).rule ctx slots =
      Rule.conditional c (Rule.branches c args ctx) slots := by
  rw [Conditional.check, rule_top_bind, Rule.conditional]
  congr 1
  funext x rest
  split
  · rw [rule_lift_bind, Rule.branches]
    cases h : c.branches args with
    | error e => rfl
    | ok branches =>
      obtain ⟨ht, hf⟩ := Conditional.mem_of_branches h
      simp only [Outcome.ok_bind, rule_checkBranch_bind (ha _ ht), rule_checkBranch_bind (ha _ hf),
        rule_join]
      rfl
  · rfl

/-- Every instruction follows the rule of its opcode. -/
theorem rule_ofOpcode (op : Opcode) :
    (ofOpcode op args).rule ctx slots = Rule.ofOpcode op args ctx slots := by
  have codeAt {index : Nat} {body : Body} (h : Operand.codeAt op args index = .ok body) :
      body.check.Confined := ha body (Operand.mem_of_codeAt h)
  cases op with
  | lambda =>
    simp only [ofOpcode, Rule.ofOpcode, rule_lift_bind]
    exact Outcome.bind_congr fun arg _ => Outcome.bind_congr fun ret _ =>
      Outcome.bind_congr fun body hb => rule_lambda (codeAt hb) ctx slots arg ret
  | dip =>
    simp only [ofOpcode, Rule.ofOpcode, rule_lift_bind]
    exact Outcome.bind_congr fun p hp => rule_dip (ha p.2 (mem_of_dipOperands hp)) ctx slots p.1
  | loop =>
    simp only [ofOpcode, Rule.ofOpcode, rule_lift_bind]
    exact Outcome.bind_congr fun body hb => rule_loop (codeAt hb) ctx slots
  | iter =>
    simp only [ofOpcode, Rule.ofOpcode, rule_lift_bind]
    exact Outcome.bind_congr fun body hb => rule_iter (codeAt hb) ctx slots
  | ifBool => exact rule_conditional ha ctx slots .ifBool
  | ifNone => exact rule_conditional ha ctx slots .ifNone
  | ifLeft => exact rule_conditional ha ctx slots .ifLeft
  | ifCons => exact rule_conditional ha ctx slots .ifCons
  | _ => exact rule_flat ctx slots _ _

theorem rule_instruction (op : Opcode) :
    (instruction op args).rule ctx slots =
      Operand.count op args >>= fun _ => Rule.ofOpcode op args ctx slots := by
  rw [instruction, rule_lift_bind]
  refine Outcome.bind_congr fun _ _ => ?_
  rw [rule_seq ctx slots (.ofOpcode ha op), rule_ofOpcode ha]
  cases Rule.ofOpcode op args ctx slots <;> rfl

end

end Check

theorem operands_confined {args : List Arg} (body : Body) (h : Operand.code body ∈ operands args) :
    body.check.Confined := by
  rw [(mem_operands h).1]
  exact checkCode_confined body.code

/-- An instruction counts its arguments and then follows its rule. -/
theorem Instr.rule_check (op : Opcode) (args : List Arg) (ctx : Context) (slots : List Ty) :
    (Instr.check ⟨op, args⟩).rule ctx slots =
      Operand.count op (operands args) >>= fun _ => Rule.ofOpcode op (operands args) ctx slots := by
  rw [Instr.check, Check.rule_instruction operands_confined]

theorem rule_checkCode_nil (ctx : Context) (slots : List Ty) :
    (checkCode []).rule ctx slots = .ok slots := by
  rw [checkCode, Check.rule_pure]

/-- Code follows the rules of its instructions in a row, until all is lost. -/
theorem rule_checkCode_cons (i : Instr) (rest : List Instr) (ctx : Context) (slots : List Ty) :
    (checkCode (i :: rest)).rule ctx slots =
      i.check.rule ctx slots >>= fun out =>
        if isDiverged out then .ok out else (checkCode rest).rule ctx out := by
  rw [checkCode, Check.rule_seq ctx slots (instr_confined i)]
  refine Outcome.bind_congr fun out _ => ?_
  rw [Check.rule_diverged_bind]
  cases isDiverged out <;> rfl

end Michelson

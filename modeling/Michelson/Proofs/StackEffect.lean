import Michelson.Proofs.Weakening

namespace Michelson

namespace Conditional

def partCount : Conditional → Branch → Nat
  | ifNone, .onFalse => 1
  | ifLeft, _ => 1
  | ifCons, .onTrue => 2
  | _, _ => 0

/-- By how much a conditional raises the stack: as its first branch does, or as the other if that is never left. -/
def raise? (c : Conditional) (onTrue onFalse : Option Int) : Option Int :=
  (onTrue.map fun d : Int => d + c.partCount .onTrue - 1).or
    (onFalse.map fun d : Int => d + c.partCount .onFalse - 1)

end Conditional

/-- By how much an instruction raises the stack, given its number and by how much its bodies do. There is no answer if
it is never left. -/
def Opcode.raise? (op : Opcode) (number : Option Nat) (bodies : List (Option Int)) : Option Int :=
  match op, bodies with
  | .failwith, _ => .none
  | .dip, [body] => body
  | .ifBool, [a, b] => Conditional.ifBool.raise? a b
  | .ifNone, [a, b] => Conditional.ifNone.raise? a b
  | .ifLeft, [a, b] => Conditional.ifLeft.raise? a b
  | .ifCons, [a, b] => Conditional.ifCons.raise? a b
  | _, _ => .some (op.raise number)

mutual

/-- By how much code raises the stack, or nothing if it is never left. -/
def codeRaise? : List Instr → Option Int
  | [] => some 0
  | i :: rest => do
    let d ← i.raise?
    let d' ← codeRaise? rest
    return d + d'

def Instr.raise? : Instr → Option Int
  | ⟨op, args⟩ => op.raise? (Operand.number? (operands args)) (bodyRaises args)

def bodyRaises : List Arg → List (Option Int)
  | [] => []
  | .code body :: rest => codeRaise? body :: bodyRaises rest
  | .type _ :: rest | .literal _ :: rest => bodyRaises rest

end

namespace Rule

def Raises (d : Int) (rule : Rule) : Prop :=
  ∀ slots out : List Ty, rule slots = .ok out → (out.length : Int) = slots.length + d

section

variable {op : Opcode} {d : Int}

theorem raises_refuse (e : TypeError) : Raises d fun _ => .refuse e := by
  intro _ _ h
  cases h

theorem raises_onTop {f : Ty → Rule} (h : ∀ x, (f x).Raises (d + 1)) : (onTop op f).Raises d
  | [], out, ho => by
    rw [onTop_nil] at ho
    cases ho
  | x :: rest, out, ho => by
    rw [onTop_cons] at ho
    have := h x rest out ho
    simp only [List.length_cons]
    omega

end

/-- An instruction without nested code raises the stack by a number that its opcode and its own number tell. -/
theorem raises_plain {op : Opcode} (args : List Operand) (hf : op ≠ .failwith)
    (hb : op.hasBody = false) : (plain op args).Raises (op.raise (Operand.number? args)) := by
  intro slots out ho
  have h := conduct_plain args hf hb (.refl slots)
  rw [ho] at h
  cases h with
  | leaves hlen _ _ => exact hlen

/-- A rule that does not leave a sublanguage and raises the stack by so much, or one after which all is lost. -/
def Shifts (g : Fragment) (raise : Option Int) (rule : Rule) : Prop :=
  ∀ slots out : List Ty, typesWithin g slots → rule slots = .ok out →
    match raise with
    | .none => out = [.universal]
    | .some d => typesWithin g out ∧ (out.length : Int) = slots.length + d

section

variable {g : Fragment} {raise : Option Int}

theorem Keeps.shifts {d : Int} {rule : Rule} (hk : rule.Keeps g) (hr : rule.Raises d) :
    rule.Shifts g (.some d) := by
  intro slots out hs ho
  exact ⟨hk slots out hs ho, hr slots out ho⟩

theorem Shifts.bind {α : Type} {x : Outcome TypeError α} {f : α → Rule}
    (h : ∀ a, x = .ok a → (f a).Shifts g raise) :
    Shifts g raise fun slots => x >>= fun a => f a slots := by
  intro slots out hs ho
  obtain ⟨a, ha, ho⟩ := Outcome.bind_eq_ok.mp ho
  exact h a ha slots out hs ho

theorem shifts_failWith : failWith.Shifts g .none := by
  intro slots out _ ho
  cases slots with
  | nil => cases ho
  | cons x rest =>
    rw [failWith, onTop_cons] at ho
    cases ho
    rfl

/-- A repeated body leaves a stack as high as it has found it. -/
theorem raises_repeated (op : Opcode) (enter leave : List Ty) (body : Rule) :
    (repeated op enter leave body).Raises 0 := by
  intro rest out ho
  obtain ⟨_, -, ho⟩ := Outcome.bind_eq_ok.mp ho
  obtain ⟨_, -, ho⟩ := Outcome.bind_eq_ok.mp ho
  cases ho
  simp

theorem raises_loop (body : Rule) : (loop body).Raises (-1) := by
  refine raises_onTop fun x => ?_
  split
  · exact raises_repeated .loop [] [.bool] body
  · exact raises_refuse _

theorem raises_iter (body : Rule) : (iter body).Raises (-1) := by
  refine raises_onTop fun x => ?_
  split
  · exact raises_repeated .iter _ [] body
  · exact raises_refuse _

theorem raises_lambda (arg ret : Ty) (code : List Instr) (body : Rule) :
    (lambda arg ret code body).Raises 1 := by
  intro slots out ho
  obtain ⟨_, -, ho⟩ := Outcome.bind_eq_ok.mp ho
  obtain ⟨_, -, ho⟩ := Outcome.bind_eq_ok.mp ho
  cases ho
  rfl

theorem length_parts {c : Conditional} {side : Branch} {x : Ty} {parts : List Ty}
    (h : c.parts side x = .ok parts) : parts.length = c.partCount side := by
  unfold Conditional.parts at h
  split at h <;> cases h <;> simp_all [Conditional.partCount]

/-- A branch starts with the parts of the value in its place. -/
theorem shifts_branch {c : Conditional} {side : Branch} {x : Ty} (hx : x.within g) {body : Rule}
    (hb : body.Shifts g raise) :
    (branch c side x body).Shifts g (raise.map fun d : Int => d + c.partCount side) := by
  intro rest out hr ho
  obtain ⟨parts, hp, ho⟩ := Outcome.bind_eq_ok.mp ho
  have hs : typesWithin g (parts ++ rest) := by simp [within_parts hx hp, hr]
  have hout := hb _ out hs ho
  cases raise with
  | none => exact hout
  | some d =>
    obtain ⟨hw, hl⟩ := hout
    rw [List.length_append, length_parts hp] at hl
    refine ⟨hw, ?_⟩
    dsimp only
    omega

theorem le_length_of_require {op : Opcode} {n : Nat} {slots : List Ty} {u : Unit}
    (h : require op n slots = .ok u) : n ≤ slots.length := by
  rcases Nat.lt_or_ge slots.length n with hn | hn
  · rw [require_of_lt op hn] at h
    cases h
  · exact hn

section

variable (hg : g.universal = false)

include hg

/-- `DIP` raises the stack as its body does. -/
theorem shifts_dip (n : Nat) {body : Rule} (hb : body.Shifts g raise) :
    (dip n body).Shifts g raise := by
  intro slots out hs ho
  obtain ⟨_, hn, ho⟩ := Outcome.bind_eq_ok.mp ho
  obtain ⟨inner, hi, ho⟩ := Outcome.bind_eq_ok.mp ho
  have hd : typesWithin g (slots.drop n) := typesWithin_of_subset hs (List.drop_subset n slots)
  have ht : typesWithin g (slots.take n) := typesWithin_of_subset hs (List.take_subset n slots)
  have hin := hb _ inner hd hi
  cases ho
  cases raise with
  | none =>
    cases hin
    rfl
  | some d =>
    obtain ⟨hw, hl⟩ := hin
    have hlen := le_length_of_require hn
    rw [isDiverged_of_within hg hw, if_neg Bool.false_ne_true]
    refine ⟨by simp [ht, hw], ?_⟩
    rw [List.length_drop] at hl
    rw [List.length_append, List.length_take]
    omega

/-- A conditional raises the stack as its branches do, less the value and more its parts. -/
theorem shifts_conditional (c : Conditional) {branches : Outcome TypeError (Rule × Rule)}
    {onTrue onFalse : Option Int}
    (hb : ∀ p, branches = .ok p → p.1.Shifts g onTrue ∧ p.2.Shifts g onFalse) :
    (conditional c branches).Shifts g (c.raise? onTrue onFalse) := by
  intro slots out hs ho
  cases slots with
  | nil => cases ho
  | cons x rest =>
    rw [typesWithin_cons, Bool.and_eq_true] at hs
    rw [conditional, onTop_cons] at ho
    split at ho
    · obtain ⟨p, hp, ho⟩ := Outcome.bind_eq_ok.mp ho
      obtain ⟨a, ha, ho⟩ := Outcome.bind_eq_ok.mp ho
      obtain ⟨b, hb', ho⟩ := Outcome.bind_eq_ok.mp ho
      have hta := shifts_branch hs.1 (hb p hp).1 rest a hs.2 ha
      have htb := shifts_branch hs.1 (hb p hp).2 rest b hs.2 hb'
      rw [eq_of_joined ho]
      -- only a branch that is never left is passed over for the other
      cases onTrue with
      | some d =>
        obtain ⟨hw, hl⟩ := hta
        rw [isUnreached_of_within hg hw, if_neg Bool.false_ne_true]
        refine ⟨hw, ?_⟩
        rw [List.length_cons]
        dsimp only at hl ⊢
        omega
      | none =>
        obtain rfl : a = [.universal] := hta
        rw [if_pos (show Conditional.isUnreached [.universal] = true from rfl)]
        cases onFalse with
        | none => exact htb
        | some d =>
          obtain ⟨hw, hl⟩ := htb
          refine ⟨hw, ?_⟩
          rw [List.length_cons]
          dsimp only at hl ⊢
          omega
    · cases ho

end

end

end Rule

theorem operands_eq_map (args : List Arg) : operands args = args.map Arg.operand := by
  induction args with
  | nil => rfl
  | cons arg args ih => rw [operands, ih, List.map_cons]

theorem getElem?_of_codeAt {op : Opcode} {args : List Arg} {index : Nat} {body : Body}
    (h : Operand.codeAt op (operands args) index = .ok body) :
    args[index]? = some (.code body.code) := by
  unfold Operand.codeAt at h
  rw [operands_eq_map, List.getElem?_map] at h
  cases ha : args[index]? with
  | none =>
    rw [ha] at h
    cases h
  | some arg =>
    rw [ha] at h
    cases arg with
    | code code =>
      cases h
      rfl
    | type t => cases h
    | literal l => cases h

theorem Conditional.eq_of_branches {c : Conditional} {args : List Arg} {a b : Body}
    (h : c.branches (operands args) = .ok (a, b)) : args = [.code a.code, .code b.code] := by
  unfold branches at h
  split at h
  · cases h
  · rename_i hl
    rw [operands_eq_map, List.length_map, Decidable.not_not] at hl
    obtain ⟨_, ha, h⟩ := Outcome.bind_eq_ok.mp h
    obtain ⟨_, hb, h⟩ := Outcome.bind_eq_ok.mp h
    cases h
    match args, hl with
    | [x, y], _ =>
      cases getElem?_of_codeAt ha
      cases getElem?_of_codeAt hb
      rfl

theorem Check.bodyRaises_of_dipOperands {args : List Arg} {n : Nat} {body : Body}
    (hc : Operand.count .dip (operands args) = .ok ())
    (h : dipOperands (operands args) = .ok (n, body)) :
    bodyRaises args = [codeRaise? body.code] := by
  match args with
  | [] => cases hc
  | [arg] =>
    obtain ⟨_, hb, h⟩ := Outcome.bind_eq_ok.mp h
    cases h
    cases getElem?_of_codeAt hb
    rfl
  | [arg, arg'] =>
    obtain ⟨m, hm, h⟩ := Outcome.bind_eq_ok.mp h
    obtain ⟨_, hb, h⟩ := Outcome.bind_eq_ok.mp h
    cases h
    cases getElem?_of_codeAt hb
    cases arg with
    | code code => cases hm
    | type t => cases hm
    | literal l => rfl
  | _ :: _ :: _ :: rest => cases hc

theorem Body.shifts {g : Fragment} {raise : Option Int} {body : Body} (hb : body.check.Confined)
    (op : Opcode) (ctx : Context) (h : (body.check.rule ctx.deeper).Shifts g raise) :
    (body.rule op ctx).Shifts g raise := by
  intro slots out hs ho
  rw [Body.rule, Check.rule_inScope _ _ hb] at ho
  split at ho
  · exact h slots out hs ho
  · cases ho

section

variable {g : Fragment} (hg : g.universal = false) {op : Opcode} {args : List Arg} {ctx : Context}

include hg

theorem shifts_branches {c : Conditional}
    (hb : ∀ body, Operand.code body ∈ operands args →
      (body.rule c.opcode ctx).Shifts g (codeRaise? body.code)) :
    (Rule.conditional c (Rule.branches c (operands args) ctx)).Shifts g
      (c.opcode.raise? (Operand.number? (operands args)) (bodyRaises args)) := by
  cases hbr : c.branches (operands args) with
  | error e =>
    -- without two bodies there is no success to speak of
    intro slots out _ ho
    cases slots with
    | nil => cases ho
    | cons x rest =>
      rw [Rule.conditional, Rule.onTop_cons, Rule.branches, hbr] at ho
      split at ho <;> cases ho
  | ok p =>
    obtain ⟨a, b⟩ := p
    obtain ⟨ha, hf⟩ := Conditional.mem_of_branches hbr
    have bodies (p : Rule × Rule) (hp : Rule.branches c (operands args) ctx = .ok p) :
        p.1.Shifts g (codeRaise? a.code) ∧ p.2.Shifts g (codeRaise? b.code) := by
      rw [Rule.branches, hbr] at hp
      cases hp
      exact ⟨hb a ha, hb b hf⟩
    have h := Rule.shifts_conditional hg c bodies
    obtain rfl := Conditional.eq_of_branches hbr
    cases c <;> exact h

/-- One instruction, given by how much its bodies raise the stack. -/
theorem shifts_ofOpcode (hc : Operand.count op (operands args) = .ok ()) (ha : argsWithin g args)
    (hb : ∀ body, Operand.code body ∈ operands args →
      (body.rule op ctx).Shifts g (codeRaise? body.code)) :
    (Rule.ofOpcode op (operands args) ctx).Shifts g (Instr.raise? ⟨op, args⟩) := by
  rw [argsWithin_iff] at ha
  have types (t : Ty) (ht : Operand.type t ∈ operands args) : t.within g :=
    ha _ (type_mem_operands ht)
  have codes (body : Body) (hm : Operand.code body ∈ operands args) : codeWithin g body.code :=
    ha _ (mem_operands hm).2
  have plain (hf : op ≠ .failwith) (hp : op.hasBody = false) :
      (Rule.plain op (operands args)).Shifts g (some (op.raise (Operand.number? (operands args)))) :=
    (Rule.keeps_plain _ hf hp types).shifts (Rule.raises_plain _ hf hp)
  rw [Instr.raise?]
  cases op with
  | lambda =>
    refine .bind fun arg harg => .bind fun ret hret => .bind fun body hbody => ?_
    have harg := types arg (Operand.mem_of_typeAt harg)
    have hret := types ret (Operand.mem_of_typeAt hret)
    have hcode := codes body (Operand.mem_of_codeAt hbody)
    exact (Rule.keeps_lambda harg hret hcode _).shifts (Rule.raises_lambda arg ret body.code _)
  | dip =>
    refine .bind fun p hp => ?_
    rw [Check.bodyRaises_of_dipOperands hc hp]
    exact Rule.shifts_dip hg p.1 (hb p.2 (Check.mem_of_dipOperands hp))
  | loop => exact .bind fun body _ => (Rule.keeps_loop _).shifts (Rule.raises_loop _)
  | iter => exact .bind fun body _ => (Rule.keeps_iter _).shifts (Rule.raises_iter _)
  | ifBool => exact shifts_branches hg (c := .ifBool) hb
  | ifNone => exact shifts_branches hg (c := .ifNone) hb
  | ifLeft => exact shifts_branches hg (c := .ifLeft) hb
  | ifCons => exact shifts_branches hg (c := .ifCons) hb
  | failwith => exact Rule.shifts_failWith
  | _ => exact plain nofun rfl

end

/-- Where code succeeds, it raises the stack by as much as can be read off it, or all is lost if nothing can. -/
theorem shifts_checkCode {g : Fragment} (hg : g.universal = false) (code : List Instr)
    (hc : codeWithin g code) (ctx : Context) :
    ((checkCode code).rule ctx).Shifts g (codeRaise? code) := by
  induction code using code_induction generalizing ctx with
  | nil =>
    intro slots out hs ho
    rw [rule_checkCode_nil] at ho
    cases ho
    rw [codeRaise?]
    exact ⟨hs, by simp⟩
  | cons op args rest nested ih =>
    rw [codeWithin_cons, Bool.and_eq_true] at hc
    have hargs := argsWithin_iff.mp hc.1
    intro slots out hs ho
    rw [rule_checkCode_cons, Instr.rule_check] at ho
    obtain ⟨mid, hm, ho⟩ := Outcome.bind_eq_ok.mp ho
    obtain ⟨_, hn, hm⟩ := Outcome.bind_eq_ok.mp hm
    have hi : (Rule.ofOpcode op (operands args) ctx).Shifts g (Instr.raise? ⟨op, args⟩) := by
      refine shifts_ofOpcode hg hn hc.1 fun body hbody => ?_
      obtain ⟨hcheck, hmem⟩ := mem_operands hbody
      refine Body.shifts (operands_confined body hbody) op ctx ?_
      rw [hcheck]
      exact nested body.code hmem (hargs _ hmem) ctx.deeper
    have hmid := hi slots mid hs hm
    rw [codeRaise?]
    cases hd : Instr.raise? ⟨op, args⟩ with
    | none =>
      rw [hd] at hmid
      obtain rfl : mid = [.universal] := hmid
      cases ho
      rfl
    | some d =>
      rw [hd] at hmid
      obtain ⟨hw, hl⟩ := hmid
      rw [isDiverged_of_within hg hw, if_neg Bool.false_ne_true] at ho
      have hrest := ih hc.2 ctx mid out hw ho
      cases hd' : codeRaise? rest with
      | none =>
        rw [hd'] at hrest
        exact hrest
      | some d' =>
        rw [hd'] at hrest
        obtain ⟨hw', hl'⟩ := hrest
        refine ⟨hw', ?_⟩
        omega

/-- Whether code is never left, and by how much it changes the height of the stack if it is, does not depend on the
stack it succeeds on, nor on the context. -/
theorem stack_effect_of_code (code : List Instr) (s₁ s₂ : State)
    (hc : codeWithin Fragment.noUniversal.outer code)
    (h₁ : typesWithin Fragment.noUniversal.outer s₁.stack.visible)
    (h₂ : typesWithin Fragment.noUniversal.outer s₂.stack.visible)
    (ho₁ : ((checkCode code).run s₁).outcome = .ok ())
    (ho₂ : ((checkCode code).run s₂).outcome = .ok ()) :
    let left₁ := ((checkCode code).run s₁).state.stack.visible
    let left₂ := ((checkCode code).run s₂).state.stack.visible
    (left₁ = [.universal] ∧ left₂ = [.universal]) ∨
      left₁ ≠ [.universal] ∧ left₂ ≠ [.universal] ∧
        (left₁.length : Int) - s₁.stack.visible.length =
          left₂.length - s₂.stack.visible.length := by
  intro left₁ left₂
  have hcode := checkCode_confined code
  have hr₁ := (Check.rule_eq_ok_iff hcode).mpr ⟨ho₁, rfl⟩
  have hr₂ := (Check.rule_eq_ok_iff hcode).mpr ⟨ho₂, rfl⟩
  have hs₁ := shifts_checkCode rfl code hc s₁.context _ _ h₁ hr₁
  have hs₂ := shifts_checkCode rfl code hc s₂.context _ _ h₂ hr₂
  have live {slots : List Ty} (hw : typesWithin Fragment.noUniversal.outer slots) :
      slots ≠ [.universal] := by
    rintro rfl
    cases hw
  cases hd : codeRaise? code with
  | none =>
    rw [hd] at hs₁ hs₂
    exact .inl ⟨hs₁, hs₂⟩
  | some d =>
    rw [hd] at hs₁ hs₂
    obtain ⟨hw₁, hl₁⟩ := hs₁
    obtain ⟨hw₂, hl₂⟩ := hs₂
    refine .inr ⟨live hw₁, live hw₂, ?_⟩
    change (left₁.length : Int) = _ at hl₁
    change (left₂.length : Int) = _ at hl₂
    omega

/-- Code that finds a string on one stack and a list on the other, and one of whose branches fails, within the least
limit that leaves room for it and within the usual one. -/
theorem stack_effect_of_code_dip :
    let code : List Instr := [⟨.size, []⟩, ⟨.dip, [.code [⟨.ifNone,
      [.code [⟨.unit, []⟩, ⟨.failwith, []⟩], .code [⟨.drop, []⟩]]⟩]]⟩]
    let s₁ : State := ⟨.ofConfig ⟨2⟩, .ofSlots [.string, .option .int]⟩
    let s₂ : State := ⟨.ofConfig {}, .ofSlots [.list .nat, .option (.set .bool), .unit]⟩
    let height (s : State) : Int := ((checkCode code).run s).state.stack.length
    height s₁ = 1 ∧ height s₁ - s₁.stack.length = height s₂ - s₂.stack.length := by
  intro code s₁ s₂ height
  have h₁ : ((checkCode code).run s₁).state.stack.visible = [.nat] := by cbv
  refine ⟨congrArg (fun slots => (slots.length : Int)) h₁, ?_⟩
  have h := stack_effect_of_code code s₁ s₂ rfl rfl rfl (by cbv) (by cbv)
  refine (h.resolve_left fun hd => ?_).2.2
  cases h₁.symm.trans hd.1

end Michelson

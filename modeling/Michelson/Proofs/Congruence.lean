import Michelson.Proofs.Causes

namespace Michelson

/-- Outcomes with related results, or with errors that differ in what they carry only. -/
inductive OutcomesAlike {α β : Type} (related : α → β → Prop) :
    Outcome TypeError α → Outcome TypeError β → Prop where
  | ok {a : α} {b : β} : related a b → OutcomesAlike related (.ok a) (.ok b)
  | refuse {e e' : TypeError} : e.kind = e'.kind → e.opcode? = e'.opcode? →
    OutcomesAlike related (.error (.error e)) (.error (.error e'))
  | stop (f : Fault) : OutcomesAlike related (.error (.fault f)) (.error (.fault f))

namespace OutcomesAlike

variable {α β γ δ : Type} {related : α → β → Prop} {related' : γ → δ → Prop}

theorem error (f : Failure TypeError) : OutcomesAlike related (.error f) (.error f) := by
  cases f with
  | error e => exact .refuse rfl rfl
  | fault f => exact .stop f

theorem bind {o : Outcome TypeError α} {o' : Outcome TypeError β} {f : α → Outcome TypeError γ}
    {f' : β → Outcome TypeError δ} (h : OutcomesAlike related o o')
    (hf : ∀ a b, related a b → OutcomesAlike related' (f a) (f' b)) :
    OutcomesAlike related' (o >>= f) (o' >>= f') := by
  cases h with
  | ok h => exact hf _ _ h
  | refuse hk ho => exact .refuse hk ho
  | stop f => exact .stop f

end OutcomesAlike

namespace Rule

/-- Two rules that make stacks that are alike of stacks that are alike. -/
def Alike (rule rule' : Rule) : Prop :=
  ∀ slots slots', StacksAlike slots slots' →
    OutcomesAlike StacksAlike (rule slots) (rule' slots')

section

variable {op : Opcode}

theorem alike_refuse {e e' : TypeError} (hk : e.kind = e'.kind) (ho : e.opcode? = e'.opcode?) :
    Alike (fun _ => .refuse e) fun _ => .refuse e' :=
  fun _ _ _ => .refuse hk ho

theorem alike_push_one {t u : Ty} (h : t.Alike u) :
    Alike (fun rest => .ok (t :: rest)) fun rest => .ok (u :: rest) :=
  fun _ _ hr => .ok (.cons h hr)

/-- A decision made before the slots are looked at. -/
theorem Alike.bind {α : Type} {x : Outcome TypeError α} {f f' : α → Rule}
    (h : ∀ a, x = .ok a → (f a).Alike (f' a)) :
    Alike (fun slots => x >>= fun a => f a slots) fun slots => x >>= fun a => f' a slots := by
  intro slots slots' hs
  cases x with
  | error e => exact .error e
  | ok a => exact h a rfl slots slots' hs

/-- A choice made alike on both sides. -/
theorem Alike.ite {p q : Prop} [Decidable p] [Decidable q] (hpq : p ↔ q) {a a' b b' : Rule}
    (ha : a.Alike a') (hb : b.Alike b') :
    Alike (fun rest => if p then a rest else b rest) fun rest => if q then a' rest else b' rest := by
  intro slots slots' hs
  by_cases hp : p
  · simp only [if_pos hp, if_pos (hpq.mp hp)]
    exact ha slots slots' hs
  · simp only [if_neg hp, if_neg (fun hq => hp (hpq.mpr hq))]
    exact hb slots slots' hs

theorem alike_onTop {f f' : Ty → Rule} (h : ∀ {x x'}, x.Alike x' → (f x).Alike (f' x')) :
    (onTop op f).Alike (onTop op f') := by
  intro slots slots' hs
  cases hs with
  | nil => exact .refuse rfl rfl
  | cons hx hr =>
    rw [onTop_cons, onTop_cons]
    exact h hx _ _ hr

end

/-- An instruction without nested code does not tell alike stacks apart. -/
theorem alike_plain {op : Opcode} (args : List Operand) (hb : op.hasBody = false) :
    (plain op args).Alike (plain op args) := by
  intro slots slots' hs
  by_cases hop : op = .failwith
  · subst hop
    exact alike_onTop (fun _ _ _ _ => .ok (.refl _)) slots slots' hs
  · have h := conduct_plain args hop hb hs
    generalize plain op args slots = v at h ⊢
    generalize plain op args slots' = v' at h ⊢
    cases h with
    | leaves _ _ ha => exact .ok ha
    | refuses _ hk ho => exact .refuse hk ho
    | misused | unread => exact .refuse rfl rfl
    | stops => exact .stop _

theorem require_alike {slots slots' : List Ty} (hs : StacksAlike slots slots') (op : Opcode) (n : Nat) :
    OutcomesAlike (fun _ _ => True) (require op n slots) (require op n slots') := by
  rw [require, require, hs.length_eq]
  split
  · exact .refuse rfl rfl
  · exact .ok trivial

/-- A `DIP` does not tell alike stacks apart if its body does not. -/
theorem alike_dip (n : Nat) {body : Rule} (hb : body.Alike body) :
    (dip n body).Alike (dip n body) := by
  intro slots slots' hs
  refine (require_alike hs .dip n).bind fun _ _ _ => ?_
  refine (hb _ _ (List.forall₂_drop n hs)).bind fun out out' ho => ?_
  rw [ho.isDiverged]
  split
  · exact .ok (.refl _)
  · exact .ok (.append (List.forall₂_take n hs) ho)

/-- Whether a body ends as it should does not depend on what is kept for diagnostics. -/
theorem endsWith_alike (op : Opcode) {expected expected' slots slots' : List Ty}
    (he : StacksAlike expected expected') (hs : StacksAlike slots slots') :
    OutcomesAlike (fun _ _ => True) (Rule.endsWith op expected slots)
      (Rule.endsWith op expected' slots') := by
  rw [Rule.endsWith, Rule.endsWith, hs.isDiverged, hs.length_eq, he.length_eq,
    hs.slotsEqual he]
  split
  · exact .ok trivial
  · split
    · exact .refuse rfl rfl
    · split
      · exact .ok trivial
      · exact .refuse rfl rfl

/-- A body that is repeated starts on alike stacks and ends on alike stacks. -/
theorem alike_repeated (op : Opcode) {enter enter' : List Ty} (he : StacksAlike enter enter')
    (leave : List Ty) {body : Rule} (hb : body.Alike body) :
    (repeated op enter leave body).Alike (repeated op enter' leave body) := by
  intro rest rest' hr
  refine (hb _ _ (he.append hr)).bind fun out out' ho => ?_
  refine (endsWith_alike op (.append (.refl leave) hr) ho).bind fun _ _ _ => ?_
  exact .ok hr

theorem alike_loop {body : Rule} (hb : body.Alike body) : (loop body).Alike (loop body) := by
  refine alike_onTop fun {x x'} hx => ?_
  have hbool : x = .bool ↔ x' = .bool := hx.eq_iff rfl
  by_cases h : x = .bool
  · rw [if_pos h, if_pos (hbool.mp h)]
    exact alike_repeated .loop .nil [.bool] hb
  · rw [if_neg h, if_neg (mt hbool.mpr h)]
    exact alike_refuse rfl rfl

theorem elements?_alike {x x' : Ty} (h : x.Alike x') :
    Option.Rel Ty.Alike (Check.elements? x) (Check.elements? x') := by
  cases h with
  | list ht | set ht => exact .some ht
  | map hk hv => exact .some (.pair hk hv)
  | _ => exact .none

theorem alike_iter {body : Rule} (hb : body.Alike body) : (iter body).Alike (iter body) := by
  refine alike_onTop fun {x x'} hx => ?_
  have he := elements?_alike hx
  generalize Check.elements? x = t at he ⊢
  generalize Check.elements? x' = t' at he ⊢
  cases he with
  | none => exact alike_refuse rfl rfl
  | some ht => exact alike_repeated .iter (.cons ht .nil) [] hb

/-- The body of a lambda runs on a stack of its own, so nothing but the slots below the lambda differs. -/
theorem alike_lambda (arg ret : Ty) (code : List Instr) (body : Rule) :
    (lambda arg ret code body).Alike (lambda arg ret code body) := by
  refine .bind fun out _ => ?_
  exact .bind fun _ _ => alike_push_one (.refl _)

theorem parts_alike (c : Conditional) (side : Branch) {x x' : Ty} (h : x.Alike x') :
    OutcomesAlike StacksAlike (c.parts side x) (c.parts side x') := by
  cases c with
  | ifBool => exact .ok .nil
  | ifNone =>
    cases side with
    | onTrue => exact .ok .nil
    | onFalse =>
      cases h with
      | option ht => exact .ok (.cons ht .nil)
      | _ => exact .stop _
  | ifLeft =>
    cases side <;> cases h
    case onTrue.or hl hr => exact .ok (.cons hl .nil)
    case onFalse.or hl hr => exact .ok (.cons hr .nil)
    all_goals exact .stop _
  | ifCons =>
    cases side with
    | onTrue =>
      cases h with
      | list ht => exact .ok (.cons ht (.cons (.list ht) .nil))
      | _ => exact .stop _
    | onFalse => exact .ok .nil

theorem alike_branch (c : Conditional) (side : Branch) {x x' : Ty} (hx : x.Alike x') {body : Rule}
    (hb : body.Alike body) : (branch c side x body).Alike (branch c side x' body) := by
  intro rest rest' hr
  exact (parts_alike c side hx).bind fun _ _ hp => hb _ _ (hp.append hr)

/-- Branches that leave alike slots are joined alike. -/
theorem joined_alike (c : Conditional) {a a' b b' : List Ty} (ha : StacksAlike a a')
    (hb : StacksAlike b b') : OutcomesAlike StacksAlike (c.joined a b) (c.joined a' b') := by
  have merge {p q : Bool} (h : p = q) {x x' y y' : List Ty} (hx : StacksAlike x x')
      (hy : StacksAlike y y') : StacksAlike (if p then x else y) (if q then x' else y') := by
    subst h
    split
    · exact hx
    · exact hy
  have hleft := merge ha.isUnreached hb ha
  have hright := merge hb.isUnreached hleft hb
  rw [Conditional.joined, Conditional.joined, hleft.slotsEqual hright]
  cases slotsEqual _ _ with
  | true => exact .ok hleft
  | false => exact .refuse rfl rfl

theorem accepts_alike (c : Conditional) {x x' : Ty} (h : x.Alike x') :
    c.accepts x = c.accepts x' := by
  cases c <;> cases h <;> rfl

/-- A conditional takes alike values apart alike and joins alike branches. -/
theorem alike_conditional (c : Conditional) {branches : Outcome TypeError (Rule × Rule)}
    (hb : ∀ p, branches = .ok p → p.1.Alike p.1 ∧ p.2.Alike p.2) :
    (conditional c branches).Alike (conditional c branches) := by
  refine alike_onTop fun hx => .ite (by rw [accepts_alike c hx]) ?_ (alike_refuse rfl rfl)
  refine .bind fun p hp slots slots' hs => ?_
  obtain ⟨ht, hf⟩ := hb p hp
  refine (alike_branch c .onTrue hx ht slots slots' hs).bind fun a a' ha => ?_
  refine (alike_branch c .onFalse hx hf slots slots' hs).bind fun b b' hb => ?_
  exact joined_alike c ha hb

/-- One instruction, given that its bodies do not tell apart stacks that are alike. -/
theorem alike_ofOpcode {op : Opcode} {args : List Operand} {ctx : Context}
    (hb : ∀ body, Operand.code body ∈ args → (body.rule op ctx).Alike (body.rule op ctx)) :
    (ofOpcode op args ctx).Alike (ofOpcode op args ctx) := by
  refine ofOpcode_cases (P := fun rule => rule.Alike rule) .bind ?plain ?lambda ?dip ?loop ?iter
    ?conditional
  case plain => exact alike_plain args
  case lambda =>
    intro _ arg ret body _ _ _
    exact alike_lambda arg ret body.code _
  case dip =>
    intro _ n body hbody
    exact alike_dip n (hb body hbody)
  case loop =>
    intro _ body hbody
    exact alike_loop (hb body hbody)
  case iter =>
    intro _ body hbody
    exact alike_iter (hb body hbody)
  case conditional =>
    rintro c rfl
    refine alike_conditional c fun p hp => ?_
    obtain ⟨onTrue, onFalse, ht, hf, rfl⟩ := exists_of_branches hp
    exact ⟨hb onTrue ht, hb onFalse hf⟩

end Rule

/-- A body is refused for its depth on either of two alike stacks, or checked on both. -/
theorem Body.alike {body : Body} (hb : body.check.Confined) (op : Opcode) (ctx : Context)
    (h : (body.check.rule ctx.deeper).Alike (body.check.rule ctx.deeper)) :
    (body.rule op ctx).Alike (body.rule op ctx) := by
  intro slots slots' hs
  rw [Body.rule, Check.rule_inScope _ _ hb, Check.rule_inScope _ _ hb]
  split
  · exact h slots slots' hs
  · exact .refuse rfl rfl

/-- Code does to a stack what it does to any that is alike. -/
theorem alike_checkCode (code : List Instr) (ctx : Context) :
    ((checkCode code).rule ctx).Alike ((checkCode code).rule ctx) := by
  induction code using code_induction generalizing ctx with
  | nil =>
    intro slots slots' hs
    rw [rule_checkCode_nil, rule_checkCode_nil]
    exact .ok hs
  | cons op args rest nested ih =>
    have hop : (Rule.ofOpcode op (operands args) ctx).Alike
        (Rule.ofOpcode op (operands args) ctx) := by
      refine Rule.alike_ofOpcode fun body hm => ?_
      obtain ⟨hcheck, hmem⟩ := mem_operands hm
      refine Body.alike (operands_confined body hm) op ctx ?_
      rw [hcheck]
      exact nested body.code hmem ctx.deeper
    intro slots slots' hs
    rw [rule_checkCode_cons, rule_checkCode_cons, Instr.rule_check, Instr.rule_check]
    refine (Rule.Alike.bind (fun _ _ => hop) slots slots' hs).bind fun mid mid' hm => ?_
    rw [hm.isDiverged]
    split
    · exact .ok hm
    · exact ih ctx mid mid' hm

/-- Code that is checked on two stacks that are alike is accepted on both, and leaves stacks that are alike, or it is
refused on both with errors of one kind that name one instruction. A check that stops short of an answer does so on both
stacks, and only where there may be more slots than can be counted. -/
theorem diagnostics_unseen (code : List Instr) (ctx : Context) (stack stack' : Stack)
    (h : StacksAlike stack.visible stack'.visible) :
    let run := (checkCode code).run ⟨ctx, stack⟩
    let run' := (checkCode code).run ⟨ctx, stack'⟩
    (run.outcome = .ok () ∧ run'.outcome = .ok () ∧
      StacksAlike run.state.stack.visible run'.state.stack.visible) ∨
    (∃ e e', run.outcome = .refuse e ∧ run'.outcome = .refuse e' ∧
      e.kind = e'.kind ∧ e.opcode? = e'.opcode?) ∨
    (∃ f, run.outcome = .stop f ∧ run'.outcome = .stop f) ∧
      Size.max ≤ stack.visible.length + codeSize code := by
  intro run run'
  have hc := checkCode_confined code
  have halike := alike_checkCode code ctx stack.visible stack'.visible h
  generalize hr : (checkCode code).rule ctx stack.visible = result at halike
  generalize hr' : (checkCode code).rule ctx stack'.visible = result' at halike
  cases halike with
  | ok hleft =>
    obtain ⟨ho, hs⟩ := (Check.rule_eq_ok_iff (s := ⟨ctx, stack⟩) hc).mp hr
    obtain ⟨ho', hs'⟩ := (Check.rule_eq_ok_iff (s := ⟨ctx, stack'⟩) hc).mp hr'
    exact .inl ⟨ho, ho', by rwa [hs, hs']⟩
  | refuse hkind hop =>
    have ho := (Check.rule_eq_error_iff (s := ⟨ctx, stack⟩) hc).mp hr
    have ho' := (Check.rule_eq_error_iff (s := ⟨ctx, stack'⟩) hc).mp hr'
    exact .inr (.inl ⟨_, _, ho, ho', hkind, hop⟩)
  | stop f =>
    have ho := (Check.rule_eq_error_iff (s := ⟨ctx, stack⟩) hc).mp hr
    have ho' := (Check.rule_eq_error_iff (s := ⟨ctx, stack'⟩) hc).mp hr'
    exact .inr (.inr ⟨⟨f, ho, ho'⟩, (failsAt_checkCode code _ _ _ hr).le_of_fault⟩)

/-- Two lambdas that differ in their bodies and in the name of a record may change places before the branches of a
conditional, of which one swaps them. -/
theorem diagnostics_unseen_swap :
    let f : Ty := .lambda ⟨.record ⟨"point", [⟨"x", .int⟩]⟩, .int, [⟨.car, []⟩], []⟩
    let g : Ty := .lambda ⟨.record ⟨"", [⟨"x", .int⟩]⟩, .int, [⟨.failwith, []⟩], [.unit]⟩
    let code : List Instr := [⟨.ifBool, [.code [], .code [⟨.swap, []⟩]]⟩]
    let run := (checkCode code).run ⟨⟨⟨1⟩, 0⟩, .ofSlots [.bool, f, g]⟩
    let run' := (checkCode code).run ⟨⟨⟨1⟩, 0⟩, .ofSlots [.bool, g, f]⟩
    StacksAlike [.bool, f, g] [.bool, g, f] ∧ run.outcome = .ok () ∧ run'.outcome = .ok () ∧
      run.state.stack.visible = [f, g] ∧
      StacksAlike run.state.stack.visible run'.state.stack.visible := by
  intro f g code run run'
  have hfg : f.Alike g := .lambda (.record (.cons rfl .int .nil)) .int
  have hs : StacksAlike [.bool, f, g] [.bool, g, f] :=
    .cons .bool (.cons hfg (.cons hfg.symm .nil))
  obtain ⟨hrun, hvisible⟩ : run.outcome = .ok () ∧ run.state.stack.visible = [f, g] := by
    simp only [run, f, g]
    cbv
  rcases diagnostics_unseen code ⟨⟨1⟩, 0⟩ (.ofSlots [.bool, f, g]) (.ofSlots [.bool, g, f]) hs with
    ⟨-, hrun', hleft⟩ | ⟨e, -, he, -⟩ | ⟨⟨fault, hf, -⟩, -⟩
  · simp only [run, run'] at hrun hvisible ⊢
    exact ⟨hs, hrun, hrun', hvisible, hleft⟩
  · cases hrun.symm.trans he
  · cases hrun.symm.trans hf

end Michelson

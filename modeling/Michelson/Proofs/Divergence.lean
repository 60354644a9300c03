import Michelson.Proofs.Conduct
import Michelson.Proofs.Meaning

namespace Michelson

/-- The instructions whose body is not run, or not always. -/
def Opcode.maySkip : Opcode → Bool
  | .lambda | .loop | .iter => true
  | _ => false

mutual

/-- Whether there is a `FAILWITH` in the code outside the bodies of `LAMBDA`, `LOOP` and `ITER`. -/
def codeFails : List Instr → Bool
  | [] => false
  | i :: rest => i.fails || codeFails rest

def Instr.fails : Instr → Bool
  | ⟨op, args⟩ => op == .failwith || (!op.maySkip && argsFail args)

def argsFail : List Arg → Bool
  | [] => false
  | .code body :: rest => codeFails body || argsFail rest
  | .type _ :: rest | .literal _ :: rest => argsFail rest

end

theorem argsFail_of_mem {body : List Instr} (hf : codeFails body) :
    ∀ {args : List Arg}, Arg.code body ∈ args → argsFail args
  | .code code :: args, h => by
    rw [argsFail, Bool.or_eq_true]
    rcases List.mem_cons.mp h with h | h
    · cases h
      exact .inl hf
    · exact .inr (argsFail_of_mem hf h)
  | .type _ :: args, h | .literal _ :: args, h => by
    rw [argsFail]
    exact argsFail_of_mem hf (by simpa using h)

namespace Rule

/-- A rule that does not leave a sublanguage, or leaves nothing but `universal`, and this only if it may fail. -/
def Settles (g : Fragment) (mayFail : Prop) (rule : Rule) : Prop :=
  ∀ slots out : List Ty, typesWithin g slots → rule slots = .ok out →
    typesWithin g out ∨ out = [.universal] ∧ mayFail

section

variable {g : Fragment} {mayFail : Prop}

theorem Keeps.settles {rule : Rule} (h : rule.Keeps g) : rule.Settles g mayFail :=
  fun slots out hs ho => .inl (h slots out hs ho)

theorem Settles.mono {rule : Rule} {may : Prop} (h : rule.Settles g mayFail)
    (hm : mayFail → may) : rule.Settles g may := by
  intro slots out hs ho
  exact (h slots out hs ho).imp id (And.imp id hm)

theorem Settles.bind {α : Type} {x : Outcome TypeError α} {f : α → Rule}
    (h : ∀ a, x = .ok a → (f a).Settles g mayFail) :
    Settles g mayFail fun slots => x >>= fun a => f a slots := by
  intro slots out hs ho
  obtain ⟨a, ha, ho⟩ := Outcome.bind_eq_ok.mp ho
  exact h a ha slots out hs ho

/-- `FAILWITH` is what may fail. -/
theorem settles_failWith (h : mayFail) : failWith.Settles g mayFail := by
  intro slots out hs ho
  cases slots with
  | nil => cases ho
  | cons x rest =>
    rw [failWith, onTop_cons] at ho
    cases ho
    exact .inr ⟨rfl, h⟩

/-- If all is lost in the body then all is lost, and otherwise the body has settled. -/
theorem settles_dip (n : Nat) {body : Rule} (hb : body.Settles g mayFail) :
    (dip n body).Settles g mayFail := by
  intro slots out hs ho
  obtain ⟨_, -, ho⟩ := Outcome.bind_eq_ok.mp ho
  obtain ⟨inner, hi, ho⟩ := Outcome.bind_eq_ok.mp ho
  have hd : typesWithin g (slots.drop n) := typesWithin_of_subset hs (List.drop_subset n slots)
  cases ho
  rcases hb _ inner hd hi with hw | ⟨rfl, hm⟩
  · by_cases hu : isDiverged inner
    · rw [if_pos hu, ← isDiverged_iff.mp hu]
      exact .inl hw
    · rw [if_neg hu, typesWithin_append, Bool.and_eq_true]
      exact .inl ⟨typesWithin_of_subset hs (List.take_subset n slots), hw⟩
  · exact .inr ⟨rfl, hm⟩

/-- Whatever a repeated body does, it ends with the slots it started above. -/
theorem keeps_repeated (op : Opcode) (enter leave : List Ty) (body : Rule) :
    (repeated op enter leave body).Keeps g := by
  intro rest out hr ho
  obtain ⟨_, -, ho⟩ := Outcome.bind_eq_ok.mp ho
  obtain ⟨_, -, ho⟩ := Outcome.bind_eq_ok.mp ho
  cases ho
  exact hr

theorem keeps_loop (body : Rule) : (loop body).Keeps g := by
  refine keeps_onTop fun x _ => ?_
  split
  · exact keeps_repeated .loop [] [.bool] body
  · exact keeps_refuse _

theorem keeps_iter (body : Rule) : (iter body).Keeps g := by
  refine keeps_onTop fun x _ => ?_
  split
  · exact keeps_repeated .iter _ [] body
  · exact keeps_refuse _

/-- A lambda remembers its code, and its type is made of its arguments. -/
theorem keeps_lambda {arg ret : Ty} {code : List Instr} (ha : arg.within g) (hr : ret.within g)
    (hc : codeWithin g code) (body : Rule) : (lambda arg ret code body).Keeps g := by
  intro slots out hs ho
  obtain ⟨_, -, ho⟩ := Outcome.bind_eq_ok.mp ho
  obtain ⟨_, -, ho⟩ := Outcome.bind_eq_ok.mp ho
  cases ho
  rw [typesWithin_cons, Bool.and_eq_true]
  exact ⟨Ty.within_function ha hr hc, hs⟩

/-- What a value is taken apart into is part of it. -/
theorem within_parts {c : Conditional} {side : Branch} {x : Ty} {parts : List Ty}
    (hx : x.within g) (hp : c.parts side x = .ok parts) : typesWithin g parts := by
  unfold Conditional.parts at hp
  split at hp <;> cases hp <;> simp_all [Ty.within]

theorem settles_branch {c : Conditional} {side : Branch} {x : Ty} (hx : x.within g) {body : Rule}
    (hb : body.Settles g mayFail) : (branch c side x body).Settles g mayFail := by
  intro rest out hr ho
  obtain ⟨parts, hp, ho⟩ := Outcome.bind_eq_ok.mp ho
  refine hb _ out ?_ ho
  rw [typesWithin_append, Bool.and_eq_true]
  exact ⟨within_parts hx hp, hr⟩

/-- A conditional goes on with what its first branch leaves, or with the other if that is never left. -/
theorem eq_of_joined {c : Conditional} {a b out : List Ty} (h : c.joined a b = .ok out) :
    out = if Conditional.isUnreached a then b else a := by
  simp only [Conditional.joined] at h
  generalize (if Conditional.isUnreached a then b else a) = a' at h ⊢
  generalize (if Conditional.isUnreached b then a' else b) = b' at h
  split at h
  · cases h
    rfl
  · cases h

/-- A conditional loses all only if both branches do. -/
theorem settles_conditional (c : Conditional) {branches : Outcome TypeError (Rule × Rule)}
    (hb : ∀ p, branches = .ok p → p.1.Settles g mayFail ∧ p.2.Settles g mayFail) :
    (conditional c branches).Settles g mayFail := by
  intro slots out hs ho
  cases slots with
  | nil => cases ho
  | cons x rest =>
    rw [typesWithin_cons, Bool.and_eq_true] at hs
    rw [conditional, onTop_cons] at ho
    split at ho
    · obtain ⟨p, hp, ho⟩ := Outcome.bind_eq_ok.mp ho
      obtain ⟨a, ha, ho⟩ := Outcome.bind_eq_ok.mp ho
      obtain ⟨b, hb', ho⟩ := Outcome.bind_eq_ok.mp ho
      have hta := settles_branch hs.1 (hb p hp).1 rest a hs.2 ha
      have htb := settles_branch hs.1 (hb p hp).2 rest b hs.2 hb'
      rw [eq_of_joined ho]
      split
      · exact htb
      · exact hta
    · cases ho

theorem settles_branches {c : Conditional} {args : List Operand} {ctx : Context}
    (hb : ∀ body, Operand.code body ∈ args → (body.rule c.opcode ctx).Settles g mayFail) :
    (conditional c (branches c args ctx)).Settles g mayFail := by
  refine settles_conditional c fun p hp => ?_
  obtain ⟨onTrue, onFalse, ht, hf, rfl⟩ := exists_of_branches hp
  exact ⟨hb onTrue ht, hb onFalse hf⟩

end

/-- One instruction, given that the bodies it may run settle. -/
theorem settles_ofOpcode {g : Fragment} {op : Opcode} {args : List Operand} {ctx : Context}
    {mayFail : Prop} (ht : ∀ t, Operand.type t ∈ args → t.within g)
    (hc : ∀ body, Operand.code body ∈ args → codeWithin g body.code)
    (hb : op.maySkip = false →
      ∀ body, Operand.code body ∈ args → (body.rule op ctx).Settles g mayFail)
    (hf : op = .failwith → mayFail) : (ofOpcode op args ctx).Settles g mayFail := by
  refine ofOpcode_cases .bind ?plain ?lambda ?dip ?loop ?iter ?conditional
  case plain =>
    intro hp
    by_cases hop : op = .failwith
    · subst hop
      exact settles_failWith (hf rfl)
    · exact (keeps_plain args hop hp ht).settles
  case lambda =>
    intro _ arg ret body harg hret hbody
    exact (keeps_lambda (ht arg harg) (ht ret hret) (hc body hbody) _).settles
  case dip =>
    rintro rfl n body hbody
    exact settles_dip n (hb rfl body hbody)
  case loop =>
    intro _ body _
    exact (keeps_loop _).settles
  case iter =>
    intro _ body _
    exact (keeps_iter _).settles
  case conditional =>
    rintro c rfl
    exact settles_branches (hb (by cases c <;> rfl))

end Rule

/-- A body that is refused for its depth leaves nothing. -/
theorem Body.settles {g : Fragment} {mayFail : Prop} {body : Body} (hb : body.check.Confined)
    (op : Opcode) (ctx : Context) (h : (body.check.rule ctx.deeper).Settles g mayFail) :
    (body.rule op ctx).Settles g mayFail := by
  intro slots out hs ho
  rw [Body.rule, Check.rule_inScope _ _ hb] at ho
  split at ho
  · exact h slots out hs ho
  · cases ho

/-- A run of code leaves what is in the sublanguage, or `universal` alone, and this only if it may fail. -/
theorem settles_checkCode (g : Fragment) (code : List Instr) (hc : codeWithin g code)
    (ctx : Context) : ((checkCode code).rule ctx).Settles g (codeFails code) := by
  induction code using code_induction generalizing ctx with
  | nil =>
    intro slots out hs ho
    rw [rule_checkCode_nil] at ho
    cases ho
    exact .inl hs
  | cons op args rest nested ih =>
    rw [codeWithin_cons, Bool.and_eq_true, argsWithin_iff] at hc
    have hi : (Rule.ofOpcode op (operands args) ctx).Settles g (Instr.fails ⟨op, args⟩) := by
      refine Rule.settles_ofOpcode (fun t ht => ?_) (fun body hm => ?_) (fun hop body hm => ?_)
        (fun hop => by simp [Instr.fails, hop])
      · exact hc.1 _ (type_mem_operands ht)
      · exact hc.1 _ (mem_operands hm).2
      · obtain ⟨hcheck, hmem⟩ := mem_operands hm
        refine Body.settles (operands_confined body hm) op ctx ?_
        rw [hcheck]
        refine (nested body.code hmem (hc.1 _ hmem) ctx.deeper).mono fun hf => ?_
        simp [Instr.fails, hop, argsFail_of_mem hf hmem]
    intro slots out hs ho
    rw [rule_checkCode_cons, Instr.rule_check] at ho
    obtain ⟨mid, hm, ho⟩ := Outcome.bind_eq_ok.mp ho
    obtain ⟨_, -, hm⟩ := Outcome.bind_eq_ok.mp hm
    rcases hi slots mid hs hm with hw | ⟨rfl, hf⟩
    · split at ho
      · cases ho
        exact .inl hw
      · refine (ih hc.2 ctx mid out hw ho).imp id (And.imp id fun hf => ?_)
        simp [codeFails, hf]
    · cases ho
      exact .inr ⟨rfl, by simp [codeFails, hf]⟩

/-- The bottom type never stands beside other slots or within one: it is all there is left, and this only after a
`FAILWITH`. Type variables never appear. -/
theorem universal_confined (code : List Instr) (s : State)
    (h : ((checkCode code).run s).outcome = .ok ()) :
    let left := ((checkCode code).run s).state.stack.visible
    (typesWithin .noUniversal s.stack.visible → codeWithin .noUniversal code →
      (left = [.universal] ∨ typesWithin .noUniversal left) ∧
        (left = [.universal] → codeFails code)) ∧
    (typesWithin .noVar s.stack.visible → codeWithin .noVar code → typesWithin .noVar left) := by
  have hr := (Check.rule_eq_ok_iff (checkCode_confined code)).mpr ⟨h, rfl⟩
  refine ⟨fun hs hc => ?_, fun hs hc => ?_⟩
  · rcases settles_checkCode _ code hc s.context _ _ hs hr with hw | ⟨hu, hf⟩
    · refine ⟨.inr hw, fun hu => ?_⟩
      rw [hu] at hw
      cases hw
    · exact ⟨.inl hu, fun _ => hf⟩
  · rcases settles_checkCode _ code hc s.context _ _ hs hr with hw | ⟨hu, -⟩
    · exact hw
    · rw [hu]
      rfl

/-- Both branches fail, one of them below a slot that is set aside. -/
theorem universal_confined_if :
    let code : List Instr := [⟨.ifBool, [.code [⟨.unit, []⟩, ⟨.failwith, []⟩],
      .code [⟨.dip, [.code [⟨.failwith, []⟩]]⟩]]⟩]
    let left := ((checkCode code).run
      ⟨.ofConfig {}, .ofSlots [.bool, .int, .nat]⟩).state.stack.visible
    codeFails code ∧ typesWithin .noVar left := by
  intro code left
  have h := universal_confined code ⟨.ofConfig {}, .ofSlots [.bool, .int, .nat]⟩ rfl
  exact ⟨(h.1 rfl rfl).2 rfl, h.2 rfl rfl⟩

end Michelson

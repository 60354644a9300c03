import Michelson.Proofs.Divergence
import Michelson.Proofs.TypeEquality

namespace Michelson

/-- An outcome beside the one on a higher stack: a result is related to the result there, and an error has the kind of
the error there, unless it is for want of slots. -/
def Weakened {α β : Type} (related : α → β → Prop) (o : Outcome TypeError α)
    (o' : Outcome TypeError β) : Prop :=
  match o with
  | .ok a => ∃ b, o' = .ok b ∧ related a b
  | .error (.error e) => e.kind ≠ .stackLength → ∃ e', o' = .refuse e' ∧ e'.kind = e.kind
  | .error (.fault _) => True

namespace Weakened

variable {α β γ δ : Type} {related : α → β → Prop} {related' : γ → δ → Prop}

theorem of_isShort {o : Outcome TypeError α} {o' : Outcome TypeError β} (h : IsShort o) :
    Weakened related o o' := by
  rcases h with ⟨e, rfl, hk⟩ | ⟨f, rfl⟩
  · intro hn
    exact absurd hk hn
  · trivial

theorem refuse {e e' : TypeError} (h : e'.kind = e.kind) :
    Weakened related (.refuse e) (.refuse e') := by
  intro _
  exact ⟨e', rfl, h⟩

theorem error (f : Failure TypeError) : Weakened related (.error f) (.error f) := by
  cases f with
  | error e => exact refuse rfl
  | fault f => trivial

theorem bind {o : Outcome TypeError α} {o' : Outcome TypeError β} {f : α → Outcome TypeError γ}
    {f' : β → Outcome TypeError δ} (h : Weakened related o o')
    (hf : ∀ a b, related a b → Weakened related' (f a) (f' b)) :
    Weakened related' (o >>= f) (o' >>= f') := by
  match o with
  | .ok a =>
    obtain ⟨b, rfl, hr⟩ := h
    exact hf a b hr
  | .error (.error e) =>
    intro hk
    obtain ⟨e', rfl, he⟩ := h hk
    exact ⟨e', rfl, he⟩
  | .error (.fault _) => trivial

end Weakened

/-- What code leaves on a stack and on a higher one: slots of a sublanguage, with `base` still below them on the higher
one, or all is lost on both. -/
def Raised (g : Fragment) (base out out' : List Ty) : Prop :=
  typesWithin g out ∧ out' = out ++ base ∨ out = [.universal] ∧ out' = [.universal]

theorem Raised.of_within {g : Fragment} {base out : List Ty} (h : typesWithin g out) :
    Raised g base out (out ++ base) :=
  .inl ⟨h, rfl⟩

theorem Raised.lost {g : Fragment} {base : List Ty} : Raised g base [.universal] [.universal] :=
  .inr ⟨rfl, rfl⟩

section

variable {g : Fragment} (hg : g.universal = false)

include hg

/-- Slots without `universal` are reached. -/
theorem isDiverged_of_within {slots : List Ty} (h : typesWithin g slots) :
    isDiverged slots = false := by
  refine Bool.eq_false_iff.mpr fun hd => ?_
  rw [isDiverged_iff.mp hd, typesWithin_cons, Bool.and_eq_true] at h
  cases Ty.isUniversal_of_within hg h.1

theorem isUnreached_of_within {slots : List Ty} (h : typesWithin g slots) :
    Conditional.isUnreached slots = false := by
  cases slots with
  | nil => rfl
  | cons t slots =>
    rw [typesWithin_cons, Bool.and_eq_true] at h
    have ht := Ty.isUniversal_of_within hg h.1
    cases t with
    | universal => cases ht
    | _ => rfl

end

namespace Conditional

variable {c : Conditional} {a b : List Ty}

/-- A conditional goes on with the one branch that is left, if the other never is. -/
theorem joined_of_unreached_left (ha : isUnreached a) : c.joined a b = .ok b := by
  simp [joined, ha, slotsEqual_refl]

theorem joined_of_unreached_right (ha : isUnreached a = false) (hb : isUnreached b) :
    c.joined a b = .ok a := by
  simp [joined, ha, hb, slotsEqual_refl]

/-- Branches that are both left have to leave equal slots. -/
theorem joined_of_reached (ha : isUnreached a = false) (hb : isUnreached b = false) :
    c.joined a b =
      if slotsEqual a b then .ok a
      else .refuse (.branches c.opcode (.ofSlots a) (.ofSlots b)) := by
  simp [joined, ha, hb]

end Conditional

namespace Rule

/-- A rule that does the same above `base` as it does alone. -/
def Weakens (g : Fragment) (base : List Ty) (rule : Rule) : Prop :=
  ∀ slots, typesWithin g slots → Weakened (Raised g base) (rule slots) (rule (slots ++ base))

section

variable {g : Fragment} {base : List Ty}

/-- A decision made before the slots are looked at. -/
theorem Weakens.bind {α : Type} {x : Outcome TypeError α} {f : α → Rule}
    (h : ∀ a, x = .ok a → (f a).Weakens g base) :
    Weakens g base fun slots => x >>= fun a => f a slots := by
  intro slots hs
  cases x with
  | error f => exact .error f
  | ok a => exact h a rfl slots hs

/-- A local rule does not see what lies below the slots it looks at. -/
theorem Local.weakens {rule : Rule} (hl : rule.Local) (hk : rule.Keeps g) :
    rule.Weakens g base := by
  intro slots hs
  rcases hl.short_or_extend slots base with h | h
  · exact .of_isShort h
  · rw [h]
    cases ho : rule slots with
    | error f => exact .error f
    | ok out => exact ⟨out ++ base, rfl, .of_within (hk slots out hs ho)⟩

theorem weakens_onTop {op : Opcode} {f : Ty → Rule} (h : ∀ x, x.within g → (f x).Weakens g base) :
    (onTop op f).Weakens g base := by
  intro slots hs
  cases slots with
  | nil => exact .of_isShort (.inl ⟨_, rfl, rfl⟩)
  | cons x rest =>
    rw [typesWithin_cons, Bool.and_eq_true] at hs
    rw [List.cons_append, onTop_cons, onTop_cons]
    exact h x hs.1 rest hs.2

theorem weakens_refuse (e : TypeError) : Weakens g base fun _ => .refuse e := by
  intro slots _
  exact .refuse rfl

theorem weakens_failWith : failWith.Weakens g base := by
  refine weakens_onTop fun x _ slots _ => ?_
  exact ⟨[.universal], rfl, .lost⟩

theorem within_elements {x t : Ty} (hx : x.within g) (ht : Check.elements? x = some t) :
    t.within g := by
  unfold Check.elements? at ht
  split at ht <;> cases ht <;> simpa [Ty.within] using hx

theorem weakens_branch {c : Conditional} {side : Branch} {x : Ty} (hx : x.within g) {body : Rule}
    (hb : body.Weakens g base) : (branch c side x body).Weakens g base := by
  refine .bind fun parts hp slots hs => ?_
  rw [← List.append_assoc]
  exact hb _ (by simp [within_parts hx hp, hs])

/-- A lambda is checked on a stack of its own, whatever is on the one at hand. -/
theorem local_lambda (arg ret : Ty) (code : List Instr) (body : Rule) :
    (lambda arg ret code body).Local := by
  refine ⟨0, reads_zero fun rest => ?_⟩
  rw [lambda, lambda]
  cases body [arg] with
  | error f => rfl
  | ok out =>
    rw [Outcome.ok_bind, Outcome.ok_bind]
    cases Rule.returns ret out <;> rfl

end

section

variable {g : Fragment} {base : List Ty} (hg : g.universal = false) (hbase : typesWithin g base)

include hg hbase

/-- The slots that `DIP` sets aside are put back on top of what its body leaves. -/
theorem weakens_dip (n : Nat) {body : Rule} (hb : body.Weakens g base) :
    (dip n body).Weakens g base := by
  intro slots hs
  rcases Nat.lt_or_ge slots.length n with hn | hn
  · exact .of_isShort (isShort_require .dip hn _)
  · have hn' : n ≤ (slots ++ base).length := by
      rw [List.length_append]
      omega
    have hd : typesWithin g (slots.drop n) := typesWithin_of_subset hs (List.drop_subset n slots)
    have ht : typesWithin g (slots.take n) := typesWithin_of_subset hs (List.take_subset n slots)
    rw [dip, dip, require_of_le .dip hn, require_of_le .dip hn', Outcome.ok_bind, Outcome.ok_bind,
      List.drop_append_of_le_length hn, List.take_append_of_le_length hn]
    refine (hb _ hd).bind fun out out' hr => ?_
    rcases hr with ⟨hw, rfl⟩ | ⟨rfl, rfl⟩
    · have hw' : typesWithin g (out ++ base) := by simp [hw, hbase]
      rw [isDiverged_of_within hg hw, isDiverged_of_within hg hw']
      refine ⟨_, rfl, .inl ⟨by simp [ht, hw], ?_⟩⟩
      exact (List.append_assoc _ _ _).symm
    · exact ⟨[.universal], rfl, .lost⟩

/-- Whether a repeated body ends as it has to is decided above `base`. -/
theorem weakened_endsWith (op : Opcode) {expected out out' : List Ty}
    (he : typesWithin g expected) (hr : Raised g base out out') :
    Weakened (fun _ _ => True) (Rule.endsWith op expected out)
      (Rule.endsWith op (expected ++ base) out') := by
  rcases hr with ⟨hw, rfl⟩ | ⟨rfl, rfl⟩
  · have hw' : typesWithin g (out ++ base) := by simp [hw, hbase]
    rw [Rule.endsWith, Rule.endsWith, isDiverged_of_within hg hw, isDiverged_of_within hg hw',
      slotsEqual_append hg hw he hbase]
    by_cases hl : out.length = expected.length
    · have hl' : (out ++ base).length = (expected ++ base).length := by simp [hl]
      rw [if_neg Bool.false_ne_true, if_neg (not_not_intro hl), if_neg Bool.false_ne_true,
        if_neg (not_not_intro hl')]
      split
      · exact ⟨(), rfl, trivial⟩
      · exact .refuse rfl
    · rw [if_neg Bool.false_ne_true, if_pos hl]
      exact .of_isShort (.inl ⟨_, rfl, rfl⟩)
  · exact ⟨(), rfl, trivial⟩

/-- A repeated body does the same above other slots. -/
theorem weakens_repeated (op : Opcode) {enter leave : List Ty} {body : Rule}
    (he : typesWithin g enter) (hl : typesWithin g leave) (hb : body.Weakens g base) :
    (repeated op enter leave body).Weakens g base := by
  intro rest hs
  rw [repeated, repeated, ← List.append_assoc, ← List.append_assoc]
  have henter : typesWithin g (enter ++ rest) := by simp [he, hs]
  have hleave : typesWithin g (leave ++ rest) := by simp [hl, hs]
  refine (hb _ henter).bind fun out out' hr => ?_
  refine (weakened_endsWith hg hbase op hleave hr).bind fun _ _ _ => ?_
  exact ⟨rest ++ base, rfl, .of_within hs⟩

theorem weakens_loop {body : Rule} (hb : body.Weakens g base) : (loop body).Weakens g base := by
  refine weakens_onTop fun x _ => ?_
  split
  · exact weakens_repeated hg hbase .loop (by simp) (by simp [Ty.within]) hb
  · exact weakens_refuse _

theorem weakens_iter {body : Rule} (hb : body.Weakens g base) : (iter body).Weakens g base := by
  refine weakens_onTop fun x hx => ?_
  split
  · rename_i t ht
    exact weakens_repeated hg hbase .iter (by simp [within_elements hx ht]) (by simp) hb
  · exact weakens_refuse _

/-- Two branches are compared above `base`, and one that is never left is not compared. -/
theorem weakened_joined (c : Conditional) {a a' b b' : List Ty} (ha : Raised g base a a')
    (hb : Raised g base b b') : Weakened (Raised g base) (c.joined a b) (c.joined a' b') := by
  rcases ha with ⟨ha, rfl⟩ | ⟨rfl, rfl⟩
  · have ha' : typesWithin g (a ++ base) := by simp [ha, hbase]
    have hua := isUnreached_of_within hg ha
    have hua' := isUnreached_of_within hg ha'
    rcases hb with ⟨hb, rfl⟩ | ⟨rfl, rfl⟩
    · have hb' : typesWithin g (b ++ base) := by simp [hb, hbase]
      rw [Conditional.joined_of_reached hua (isUnreached_of_within hg hb),
        Conditional.joined_of_reached hua' (isUnreached_of_within hg hb'),
        slotsEqual_append hg ha hb hbase]
      split
      · exact ⟨a ++ base, rfl, .of_within ha⟩
      · exact .refuse rfl
    · rw [Conditional.joined_of_unreached_right hua rfl,
        Conditional.joined_of_unreached_right hua' rfl]
      exact ⟨a ++ base, rfl, .of_within ha⟩
  · rw [Conditional.joined_of_unreached_left rfl, Conditional.joined_of_unreached_left rfl]
    exact ⟨b', rfl, hb⟩

/-- A conditional does the same above other slots if its branches do. -/
theorem weakens_conditional (c : Conditional) {branches : Outcome TypeError (Rule × Rule)}
    (hb : ∀ p, branches = .ok p → p.1.Weakens g base ∧ p.2.Weakens g base) :
    (conditional c branches).Weakens g base := by
  refine weakens_onTop fun x hx => ?_
  split
  · refine .bind fun p hp slots hs => ?_
    obtain ⟨ht, hf⟩ := hb p hp
    refine (weakens_branch hx ht slots hs).bind fun a a' ha => ?_
    refine (weakens_branch hx hf slots hs).bind fun b b' hb => ?_
    exact weakened_joined hg hbase c ha hb
  · exact weakens_refuse _

theorem weakens_branches {c : Conditional} {args : List Operand} {ctx : Context}
    (hb : ∀ body, Operand.code body ∈ args → (body.rule c.opcode ctx).Weakens g base) :
    (conditional c (branches c args ctx)).Weakens g base := by
  refine weakens_conditional hg hbase c fun p hp => ?_
  obtain ⟨onTrue, onFalse, ht, hf, rfl⟩ := exists_of_branches hp
  exact ⟨hb onTrue ht, hb onFalse hf⟩

/-- One instruction, given that its bodies do not see what lies below. -/
theorem weakens_ofOpcode {op : Opcode} {args : List Operand} {ctx : Context}
    (ht : ∀ t, Operand.type t ∈ args → t.within g)
    (hc : ∀ body, Operand.code body ∈ args → codeWithin g body.code)
    (hb : ∀ body, Operand.code body ∈ args → (body.rule op ctx).Weakens g base) :
    (ofOpcode op args ctx).Weakens g base := by
  refine ofOpcode_cases .bind ?plain ?lambda ?dip ?loop ?iter ?conditional
  case plain =>
    intro hp
    by_cases hop : op = .failwith
    · subst hop
      exact weakens_failWith
    · exact (local_plain args hop hp).weakens (keeps_plain args hop hp ht)
  case lambda =>
    intro _ arg ret body harg hret hbody
    have hk := keeps_lambda (ht arg harg) (ht ret hret) (hc body hbody) (body.rule op ctx)
    exact (local_lambda arg ret body.code _).weakens hk
  case dip =>
    intro _ n body hbody
    exact weakens_dip hg hbase n (hb body hbody)
  case loop =>
    intro _ body hbody
    exact weakens_loop hg hbase (hb body hbody)
  case iter =>
    intro _ body hbody
    exact weakens_iter hg hbase (hb body hbody)
  case conditional =>
    rintro c rfl
    exact weakens_branches hg hbase hb

end

end Rule

theorem Body.weakens {g : Fragment} {base : List Ty} {body : Body} (hb : body.check.Confined)
    (op : Opcode) (ctx : Context) (h : (body.check.rule ctx.deeper).Weakens g base) :
    (body.rule op ctx).Weakens g base := by
  intro slots hs
  rw [Body.rule, Check.rule_inScope _ _ hb, Check.rule_inScope _ _ hb]
  split
  · exact h slots hs
  · exact .refuse rfl

/-- A run of code on a stack tells how it runs above `base`. -/
theorem weakens_checkCode {g : Fragment} (hg : g.universal = false) {base : List Ty}
    (hbase : typesWithin g base) (code : List Instr) (hc : codeWithin g code) (ctx : Context) :
    ((checkCode code).rule ctx).Weakens g base := by
  induction code using code_induction generalizing ctx with
  | nil =>
    intro slots hs
    rw [rule_checkCode_nil, rule_checkCode_nil]
    exact ⟨slots ++ base, rfl, .of_within hs⟩
  | cons op args rest nested ih =>
    rw [codeWithin_cons, Bool.and_eq_true, argsWithin_iff] at hc
    have hop : (Rule.ofOpcode op (operands args) ctx).Weakens g base := by
      refine Rule.weakens_ofOpcode hg hbase (fun t ht => ?_) (fun body hm => ?_) (fun body hm => ?_)
      · exact hc.1 _ (type_mem_operands ht)
      · exact hc.1 _ (mem_operands hm).2
      · obtain ⟨hcheck, hmem⟩ := mem_operands hm
        refine Body.weakens (operands_confined body hm) op ctx ?_
        rw [hcheck]
        exact nested body.code hmem (hc.1 _ hmem) ctx.deeper
    have hi : ((Instr.check ⟨op, args⟩).rule ctx).Weakens g base := by
      intro slots hs
      rw [Instr.rule_check, Instr.rule_check]
      exact Rule.Weakens.bind (fun _ _ => hop) slots hs
    intro slots hs
    rw [rule_checkCode_cons, rule_checkCode_cons]
    refine (hi slots hs).bind fun mid mid' hr => ?_
    rcases hr with ⟨hw, rfl⟩ | ⟨rfl, rfl⟩
    · have hw' : typesWithin g (mid ++ base) := by simp [hw, hbase]
      rw [isDiverged_of_within hg hw, isDiverged_of_within hg hw']
      exact ih hc.2 ctx mid hw
    · exact ⟨[.universal], rfl, .lost⟩

/-- Code that succeeds on a stack succeeds with anything below it, and leaves that below what it leaves, or all is lost
on both. Code that is refused for another reason than want of slots is refused for that reason with anything below. What
a lambda only remembers is not restricted. -/
theorem stack_weakening (code : List Instr) (ctx : Context) (frames : List (List Ty))
    (slots base : List Ty) (hc : codeWithin Fragment.noUniversal.outer code)
    (hs : typesWithin Fragment.noUniversal.outer slots)
    (hbase : typesWithin Fragment.noUniversal.outer base) :
    let run := (checkCode code).run ⟨ctx, ⟨slots, frames⟩⟩
    let higher := (checkCode code).run ⟨ctx, ⟨slots ++ base, frames⟩⟩
    let left := run.state.stack.visible
    (run.outcome = .ok () → left ≠ [.universal] →
      higher.outcome = .ok () ∧ higher.state.stack.visible = left ++ base) ∧
    (run.outcome = .ok () → left = [.universal] →
      higher.outcome = .ok () ∧ higher.state.stack.visible = [.universal]) ∧
    (∀ e, run.outcome = .refuse e → e.kind ≠ .stackLength →
      ∃ e', higher.outcome = .refuse e' ∧ e'.kind = e.kind) := by
  intro run higher left
  have hcode := checkCode_confined code
  have h := weakens_checkCode rfl hbase code hc ctx slots hs
  have succeeds (ho : run.outcome = .ok ()) :
      ∃ out, (higher.outcome = .ok () ∧ higher.state.stack.visible = out) ∧
        Raised Fragment.noUniversal.outer base left out := by
    have hr : (checkCode code).rule ctx slots = .ok left :=
      (Check.rule_eq_ok_iff hcode (s := ⟨ctx, ⟨slots, frames⟩⟩)).mpr ⟨ho, rfl⟩
    rw [hr] at h
    obtain ⟨out, ho', hout⟩ := h
    exact ⟨out, (Check.rule_eq_ok_iff hcode).mp ho', hout⟩
  refine ⟨fun ho hl => ?_, fun ho hl => ?_, fun e he hk => ?_⟩
  · obtain ⟨out, hrun, ⟨-, rfl⟩ | ⟨hu, -⟩⟩ := succeeds ho
    · exact hrun
    · exact absurd hu hl
  · obtain ⟨out, hrun, ⟨hw, -⟩ | ⟨-, rfl⟩⟩ := succeeds ho
    · rw [hl] at hw
      cases hw
    · exact hrun
  · have hr : (checkCode code).rule ctx slots = .refuse e :=
      (Check.rule_eq_error_iff hcode (s := ⟨ctx, ⟨slots, frames⟩⟩)).mpr he
    rw [hr] at h
    obtain ⟨e', he', hkind⟩ := h hk
    exact ⟨e', (Check.rule_eq_error_iff hcode).mp he', hkind⟩

/-- A loop above slots that it never looks at. -/
theorem stack_weakening_loop :
    let code : List Instr :=
      [⟨.loop, [.code [⟨.dup, []⟩, ⟨.gt, []⟩]]⟩, ⟨.dip, [.code [⟨.unit, []⟩]]⟩]
    let higher := (checkCode code).run ⟨.ofConfig {}, ⟨[.bool, .int] ++ [.string, .mutez], []⟩⟩
    higher.outcome = .ok () ∧
      higher.state.stack.visible = [.int, .unit] ++ [.string, .mutez] := by
  have h := stack_weakening
    [⟨.loop, [.code [⟨.dup, []⟩, ⟨.gt, []⟩]]⟩, ⟨.dip, [.code [⟨.unit, []⟩]]⟩] (.ofConfig {}) []
    [.bool, .int] [.string, .mutez] (by decide) (by decide) (by decide)
  have hleft : [Ty.int, Ty.unit] ≠ [.universal] := by simp
  obtain ⟨ho, hv⟩ := h.1 (by cbv) (by cbv; exact hleft)
  refine ⟨ho, hv.trans ?_⟩
  cbv

end Michelson

import Michelson.Proofs.Congruence
import Michelson.Proofs.Weakening

namespace Michelson

section

variable {g : Fragment} (hr : g.record = false)

include hr

/-- Without records to unfold, a type differs from what it stands for in what its lambdas remember. -/
theorem Ty.alike_expand : ∀ t : Ty, t.within g → t.Alike t.expand
  | .unit, _ | .bool, _ | .int, _ | .nat, _ | .mutez, _ | .string, _ | .bytes, _ | .address, _
  | .timestamp, _ | .operation, _ | .universal, _ | .var _, _ => by
    rw [Ty.expand]
    exact .refl _
  | .option t, h | .list t, h | .set t, h | .contract t, h => by
    rw [Ty.within] at h
    rw [Ty.expand]
    constructor
    exact Ty.alike_expand t h
  | .or l r, h | .pair l r, h | .map l r, h | .bigMap l r, h => by
    rw [Ty.within, Bool.and_eq_true] at h
    rw [Ty.expand]
    constructor
    · exact Ty.alike_expand l h.1
    · exact Ty.alike_expand r h.2
  | .lambda ⟨arg, ret, _, _⟩, h => by
    rw [Ty.within, Bool.and_eq_true, Bool.and_eq_true] at h
    rw [Ty.expand]
    exact .lambda (Ty.alike_expand arg h.1.1) (Ty.alike_expand ret h.1.2)
  | .record ⟨_, _⟩, h => by
    rw [Ty.within, hr] at h
    cases h

/-- Without `universal` and records, equal types are alike. -/
theorem Ty.alike_of_equals (hu : g.universal = false) {a b : Ty} (ha : a.within g)
    (hb : b.within g) (h : a.equals b) : a.Alike b := by
  have he := Ty.expand_eq_of_equals hu ha hb h
  exact (Ty.alike_expand hr a ha).trans (he ▸ (Ty.alike_expand hr b hb).symm)

/-- Slots that are equal are alike. -/
theorem stacksAlike_of_slotsEqual (hu : g.universal = false) {a b : List Ty}
    (ha : typesWithin g a) (hb : typesWithin g b) (h : slotsEqual a b) : StacksAlike a b := by
  induction a generalizing b with
  | nil =>
    cases b with
    | nil => exact .nil
    | cons y b => cases h
  | cons x a ih =>
    cases b with
    | nil => cases h
    | cons y b =>
      rw [typesWithin_cons, Bool.and_eq_true] at ha hb
      simp only [slotsEqual, Ty.isUniversal_of_within hu ha.1, Ty.isUniversal_of_within hu hb.1,
        Bool.false_or, Bool.and_eq_true] at h
      exact .cons (Ty.alike_of_equals hr hu ha.1 hb.1 h.1) (ih ha.2 hb.2 h.2)

end

theorem slotsEqual_of_alike {a b : List Ty} (h : StacksAlike a b) : slotsEqual b a := by
  rw [← h.slotsEqual (.refl a)]
  exact slotsEqual_refl a

namespace Check

variable {α β : Type}

theorem run_bind_of_ok {m : Check α} {a : α} {s : State} (h : (m.run s).outcome = .ok a)
    (f : α → Check β) :
    ((m >>= f).run s).outcome = ((f a).run (m.run s).state).outcome ∧
      ((m >>= f).run s).state = ((f a).run (m.run s).state).state := by
  simp only [run] at h ⊢
  rw [bind_apply]
  generalize m s = first at h ⊢
  obtain ⟨outcome, state, events⟩ := first
  cases h
  exact ⟨rfl, rfl⟩

def times (round : Check α) : Nat → Check (List α)
  | 0 => pure []
  | k + 1 => do
    let a ← round
    let rest ← times round k
    return a :: rest

/-- What a round keeps is kept by any number of rounds, and each of them returns the same. -/
theorem run_times {round : Check α} {a : α} {P : State → Prop}
    (step : ∀ s, P s → (round.run s).outcome = .ok a ∧ P (round.run s).state) (k : Nat)
    {s : State} (hs : P s) :
    ((times round k).run s).outcome = .ok (List.replicate k a) ∧
      P ((times round k).run s).state := by
  induction k generalizing s with
  | zero => exact ⟨rfl, hs⟩
  | succ k ih =>
    obtain ⟨ho, hk⟩ := step s hs
    obtain ⟨ho', hk'⟩ := ih hk
    obtain ⟨ho₁, hs₁⟩ := run_bind_of_ok ho fun a => times round k >>= fun rest => pure (a :: rest)
    obtain ⟨ho₂, hs₂⟩ := run_bind_of_ok ho' fun rest => pure (a :: rest)
    rw [times, ho₁, hs₁, ho₂, hs₂]
    exact ⟨rfl, hk'⟩

end Check

namespace Rule

theorem slotsEqual_of_endsWith {op : Opcode} {expected left : List Ty} {u : Unit}
    (hd : isDiverged left = false) (h : endsWith op expected left = .ok u) :
    slotsEqual left expected := by
  rw [endsWith, hd, if_neg Bool.false_ne_true] at h
  split at h
  · cases h
  · split at h
    · assumption
    · cases h

/-- A repeated body that is accepted diverges, or it is accepted again on all that is alike. -/
theorem again_of_repeated {g : Fragment} (hu : g.universal = false) (hr : g.record = false)
    {op : Opcode} {enter leave slots out : List Ty} {body : Rule} {mayFail : Prop}
    (hb : body.Settles g mayFail) (ha : body.Alike body)
    (he : typesWithin g (enter ++ slots)) (hl : typesWithin g (leave ++ slots))
    (h : repeated op enter leave body slots = .ok out) :
    body (enter ++ slots) = .ok [.universal] ∨
      ∀ slots', StacksAlike slots slots' →
        ∃ left, body (enter ++ slots') = .ok left ∧ StacksAlike (leave ++ slots) left := by
  obtain ⟨left, hleft, h⟩ := Outcome.bind_eq_ok.mp h
  obtain ⟨_, hend, -⟩ := Outcome.bind_eq_ok.mp h
  rcases hb _ left he hleft with hw | ⟨rfl, -⟩
  · right
    intro slots' hs
    -- `equals` was tested for the first round only; that the slots are alike is what carries over to the next
    have hequal := slotsEqual_of_endsWith (isDiverged_of_within hu hw) hend
    have hback := stacksAlike_of_slotsEqual hr hu hw hl hequal
    have hagain := ha _ _ (.append (.refl enter) hs)
    rw [hleft] at hagain
    generalize body (enter ++ slots') = left' at hagain ⊢
    cases hagain with
    | ok hleft' => exact ⟨_, rfl, (StacksAlike.symm hback).trans hleft'⟩
  · exact .inl hleft

end Rule

/-- A body is repeated as it runs in its scope. -/
theorem repeated_of_scope {op : Opcode} {ctx : Context} {enter leave slots out : List Ty}
    {body : List Instr}
    (h : Rule.repeated op enter leave (Body.rule ⟨body, checkCode body⟩ op ctx) slots = .ok out) :
    Rule.repeated op enter leave ((checkCode body).rule ctx.deeper) slots = .ok out := by
  rw [Rule.repeated, Body.rule, Check.rule_inScope _ _ (checkCode_confined body)] at h
  split at h
  · exact h
  · cases h

theorem rule_loop_instr (body : List Instr) (ctx : Context) (slots : List Ty) :
    (Instr.check ⟨.loop, [.code body]⟩).rule ctx (.bool :: slots) =
      Rule.repeated .loop [] [.bool] (Body.rule ⟨body, checkCode body⟩ .loop ctx) slots := by
  have hloop (rule : Rule) :
      Rule.loop rule (.bool :: slots) = Rule.repeated .loop [] [.bool] rule slots := by
    rw [Rule.loop, Rule.onTop_cons, if_pos rfl]
  rw [← hloop, Instr.rule_check, operands, operands, Arg.operand]
  rfl

theorem rule_iter_instr (body : List Instr) (ctx : Context) {x e : Ty}
    (he : Check.elements? x = some e) (slots : List Ty) :
    (Instr.check ⟨.iter, [.code body]⟩).rule ctx (x :: slots) =
      Rule.repeated .iter [e] [] (Body.rule ⟨body, checkCode body⟩ .iter ctx) slots := by
  have hiter (rule : Rule) :
      Rule.iter rule (x :: slots) = Rule.repeated .iter [e] [] rule slots := by
    rw [Rule.iter, Rule.onTop_cons, he]
  rw [← hiter, Instr.rule_check, operands, operands, Arg.operand]
  rfl

namespace Check

/-- A check is accepted and what follows it is never reached. -/
def Diverges (m : Check Unit) (s : State) : Prop :=
  (m.run s).outcome = .ok () ∧ (m.run s).state.stack.diverged

/-- However often the check is made, it is accepted, returns `a` each time and leaves as many slots as there were at
first, equal to those. -/
def Repeats {α : Type} (round : Check α) (a : α) (s : State) : Prop :=
  ∀ k, let run := (round.times k).run s
    run.outcome = .ok (List.replicate k a) ∧ run.state.context = s.context ∧
      run.state.stack.length = s.stack.length ∧ run.state.stack.equals s.stack

/-- A round that leaves slots like those of the first round wherever it finds such slots can be repeated. -/
theorem repeats_of_alike {α : Type} {round : Check α} {a : α} {ctx : Context} {slots : List Ty}
    {frames : List (List Ty)}
    (step : ∀ found, StacksAlike slots found → ∃ left, StacksAlike slots left ∧
      (round.run ⟨ctx, ⟨found, frames⟩⟩).outcome = .ok a ∧
      (round.run ⟨ctx, ⟨found, frames⟩⟩).state = ⟨ctx, ⟨left, frames⟩⟩) :
    Repeats round a ⟨ctx, ⟨slots, frames⟩⟩ := by
  intro k
  have kept (s : State) (hs : ∃ found, StacksAlike slots found ∧ s = ⟨ctx, ⟨found, frames⟩⟩) :
      (round.run s).outcome = .ok a ∧
        ∃ left, StacksAlike slots left ∧ (round.run s).state = ⟨ctx, ⟨left, frames⟩⟩ := by
    obtain ⟨found, hf, rfl⟩ := hs
    obtain ⟨left, hl, ho, hstate⟩ := step found hf
    exact ⟨ho, left, hl, hstate⟩
  obtain ⟨ho, left, hl, hstate⟩ := run_times kept k ⟨slots, .refl slots, rfl⟩
  refine ⟨ho, ?_⟩
  rw [hstate]
  exact ⟨rfl, hl.length_eq.symm, slotsEqual_of_alike hl⟩

end Check

section

variable {g : Fragment} (hu : g.universal = false) (hr : g.record = false) {body : List Instr}
  (hc : codeWithin g body) {ctx : Context} {slots out : List Ty} (frames : List (List Ty))

include hu hr hc

/-- An accepted body diverges, or it runs in its scope wherever it finds slots like those at first. -/
theorem body_again {op : Opcode} {enter leave : List Ty} (he : typesWithin g (enter ++ slots))
    (hl : typesWithin g (leave ++ slots))
    (h : Rule.repeated op enter leave (Body.rule ⟨body, checkCode body⟩ op ctx) slots = .ok out) :
    (checkCode body).Diverges ⟨ctx.deeper, ⟨enter ++ slots, frames⟩⟩ ∨
      ∀ found, StacksAlike slots found → ∃ left, StacksAlike (leave ++ slots) left ∧
        let run := (checkCode body).run ⟨ctx.deeper, ⟨enter ++ found, frames⟩⟩
        run.outcome = .ok () ∧ run.state = ⟨ctx.deeper, ⟨left, frames⟩⟩ := by
  have hbody := checkCode_confined body
  have hsettles := settles_checkCode g body hc ctx.deeper
  have halike := alike_checkCode body ctx.deeper
  rcases Rule.again_of_repeated hu hr hsettles halike he hl (repeated_of_scope h) with hd | again
  · left
    obtain ⟨ho, hstate⟩ := hbody.run_of_rule hd frames
    refine ⟨ho, ?_⟩
    rw [hstate]
    rfl
  · right
    intro found hf
    obtain ⟨left, hrun, hleft⟩ := again found hf
    exact ⟨left, hleft, hbody.run_of_rule hrun frames⟩

/-- The body of an accepted `LOOP` is never left, or it can be repeated for as long as there is a truth value on top. -/
theorem loop_repeats (hs : typesWithin g slots)
    (h : (Instr.check ⟨.loop, [.code body]⟩).rule ctx (.bool :: slots) = .ok out) :
    (checkCode body).Diverges ⟨ctx.deeper, ⟨slots, frames⟩⟩ ∨
      Check.Repeats (do checkCode body; Check.pop) .bool ⟨ctx.deeper, ⟨slots, frames⟩⟩ := by
  rw [rule_loop_instr] at h
  have henter : typesWithin g ([] ++ slots) := hs
  have hleave : typesWithin g ([.bool] ++ slots) := by simp [Ty.within, hs]
  refine (body_again hu hr hc frames henter hleave h).imp id fun again => ?_
  refine Check.repeats_of_alike fun found hf => ?_
  obtain ⟨_, hleft, ho, hstate⟩ := again found hf
  obtain ⟨hpop, hpopped⟩ := Check.run_bind_of_ok ho fun _ => Check.pop
  rw [hstate] at hpop hpopped
  -- nothing but `bool` itself is like `bool`
  cases hleft with
  | cons ht hrest =>
    cases ht
    exact ⟨_, hrest, hpop, hpopped⟩

/-- The body of an accepted `ITER` is never left, or it can be repeated for any number of elements. -/
theorem iter_repeats {x e : Ty} (he : Check.elements? x = some e) (hx : x.within g)
    (hs : typesWithin g slots)
    (h : (Instr.check ⟨.iter, [.code body]⟩).rule ctx (x :: slots) = .ok out) :
    (checkCode body).Diverges ⟨ctx.deeper, ⟨e :: slots, frames⟩⟩ ∨
      Check.Repeats (do Check.push e; checkCode body) ()
        ⟨ctx.deeper, ⟨slots, frames⟩⟩ := by
  rw [rule_iter_instr body ctx he] at h
  have henter : typesWithin g ([e] ++ slots) := by simp [Rule.within_elements hx he, hs]
  have hleave : typesWithin g ([] ++ slots) := hs
  refine (body_again hu hr hc frames henter hleave h).imp id fun again => ?_
  refine Check.repeats_of_alike fun found hf => ?_
  obtain ⟨left, hleft, hrun⟩ := again found hf
  exact ⟨left, hleft, hrun⟩

end

/-- If a `LOOP` is accepted then its body diverges, or it can be run any number of times: it leaves `bool` on top each
time, and below it slots that equal those at first. If an `ITER` is accepted then its body diverges, or it can be run on
any number of elements. What a lambda only remembers is not restricted, and it may change from round to round. -/
theorem accepted_body_repeats (body : List Instr) (ctx : Context) (frames : List (List Ty))
    (slots : List Ty) (hc : codeWithin Fragment.noUniversalOrRecord.outer body)
    (hs : typesWithin Fragment.noUniversalOrRecord.outer slots) :
    let start (slots : List Ty) : State := ⟨ctx.deeper, ⟨slots, frames⟩⟩
    (((Instr.check ⟨.loop, [.code body]⟩).run ⟨ctx, ⟨.bool :: slots, frames⟩⟩).outcome = .ok () →
      (checkCode body).Diverges (start slots) ∨
        Check.Repeats (do checkCode body; Check.pop) .bool (start slots)) ∧
    ∀ x e, (x = .list e ∨ x = .set e ∨ ∃ k v, x = .map k v ∧ e = .pair k v) →
      x.within Fragment.noUniversalOrRecord.outer →
      ((Instr.check ⟨.iter, [.code body]⟩).run ⟨ctx, ⟨x :: slots, frames⟩⟩).outcome = .ok () →
      (checkCode body).Diverges (start (e :: slots)) ∨
        Check.Repeats (do Check.push e; checkCode body) () (start slots) := by
  intro start
  have accepted {i : Instr} {slots : List Ty}
      (h : (i.check.run ⟨ctx, ⟨slots, frames⟩⟩).outcome = .ok ()) :
      i.check.rule ctx slots = .ok (i.check.run ⟨ctx, ⟨slots, frames⟩⟩).state.stack.visible :=
    (Check.rule_eq_ok_iff (instr_confined i) (s := ⟨ctx, ⟨slots, frames⟩⟩)).mpr ⟨h, rfl⟩
  refine ⟨fun h => loop_repeats rfl rfl hc frames hs (accepted h), ?_⟩
  intro x e hxe hx h
  have he : Check.elements? x = some e := by
    rcases hxe with rfl | rfl | ⟨k, v, rfl, rfl⟩ <;> rfl
  exact iter_repeats rfl rfl hc frames he hx hs (accepted h)

/-- A loop that puts a lambda with another body in place of the one it finds, and an iteration over a map that adds up
the sizes of its keys. -/
theorem accepted_body_repeats_lambda :
    let replace : List Instr := [⟨.drop, []⟩,
      ⟨.lambda, [.type .int, .type .int, .code [⟨.neg, []⟩]]⟩,
      ⟨.push, [.type .bool, .literal (.bool true)]⟩]
    let total : List Instr := [⟨.car, []⟩, ⟨.size, []⟩, ⟨.add, []⟩]
    let start (slots : List Ty) : State := ⟨(Context.ofConfig {}).deeper, ⟨slots, [[.unit]]⟩⟩
    Check.Repeats (do checkCode replace; Check.pop) .bool
      (start [.function .int .int [], .string]) ∧
    Check.Repeats (do Check.push (.pair .string .bytes); checkCode total) ()
      (start [.nat]) := by
  intro replace total start
  have live {code : List Instr} {s : State}
      (h : ((checkCode code).run s).state.stack.diverged = false) : ¬(checkCode code).Diverges s :=
    fun hd => Bool.false_ne_true (h.symm.trans hd.2)
  constructor
  · have h := accepted_body_repeats replace (.ofConfig {}) [[.unit]]
      [.function .int .int [], .string] rfl rfl
    exact (h.1 (by cbv)).resolve_left (live (by cbv))
  · have h := accepted_body_repeats total (.ofConfig {}) [[.unit]] [.nat] rfl rfl
    have hmap := h.2 (.map .string .bytes) _ (.inr (.inr ⟨_, _, rfl, rfl⟩)) rfl
    exact (hmap (by cbv)).resolve_left (live (by cbv))

end Michelson

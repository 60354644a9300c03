import Michelson.Proofs.NestingLimit

namespace Michelson

namespace Check

def call (arg : Ty) : Check Unit := do
  push arg
  Instr.check ⟨.exec, []⟩

def applyEach : List Ty → Check Unit
  | [] => pure ()
  | v :: vs => do
    push v
    Instr.check ⟨.apply, []⟩
    applyEach vs

theorem confined_call (arg : Ty) : (call arg).Confined :=
  .bind (closed_confined.push _) fun _ => instr_confined _

theorem confined_applyEach (vs : List Ty) : (applyEach vs).Confined := by
  induction vs with
  | nil => exact .pure ()
  | cons v vs ih => exact .bind (closed_confined.push _) fun _ => .bind (instr_confined _) fun _ => ih

variable (ctx : Context) (slots : List Ty)

theorem rule_call (arg : Ty) : (call arg).rule ctx slots = Action.exec.rule .exec (arg :: slots) := by
  rw [call, rule_seq ctx slots (closed_confined.push _), rule_push]
  change (Instr.check ⟨.exec, []⟩).rule ctx (arg :: slots) = _
  rw [Instr.rule_check, operands]
  rfl

theorem rule_applyEach_cons (v : Ty) (vs : List Ty) :
    (applyEach (v :: vs)).rule ctx slots =
      Action.apply.rule .apply (v :: slots) >>= (applyEach vs).rule ctx := by
  rw [applyEach, rule_seq ctx slots (closed_confined.push _), rule_push]
  change (Instr.check ⟨.apply, []⟩ >>= fun _ => applyEach vs).rule ctx (v :: slots) = _
  rw [rule_seq ctx _ (instr_confined _), Instr.rule_check, operands]
  rfl

end Check

namespace Lambda

def accepts (f : Lambda) (arg : Ty) : Bool :=
  arg.simplify.equals f.arg.simplify

/-- What is left of a lambda that is applied to the first component of its argument. -/
def appliedTo? (f : Lambda) (v : Ty) : Option Lambda :=
  match f.arg.simplify with
  | .pair l r =>
    if l.equals v.simplify then some { f with arg := r, applied := f.applied ++ [v] } else none
  | _ => none

def appliedToEach? (f : Lambda) : List Ty → Option Lambda
  | [] => some f
  | v :: vs => (f.appliedTo? v).bind (appliedToEach? · vs)

end Lambda

namespace Action

variable {f : Lambda} {rest out : List Ty}

/-- `EXEC` leaves the result of a lambda that accepts its argument. -/
theorem exec_eq_ok_iff {arg : Ty} :
    exec.rule .exec (arg :: .lambda f :: rest) = .ok out ↔ f.accepts arg ∧ out = f.ret :: rest := by
  rw [exec, rule_two_cons, Lambda.accepts]
  by_cases h : arg.simplify.equals f.arg.simplify
  · simp [h, eq_comm]
  · simp [h, Outcome.refuse]

/-- `APPLY` leaves what remains of a lambda that can be applied. -/
theorem apply_eq_ok_iff {v : Ty} :
    Action.apply.rule .apply (v :: .lambda f :: rest) = .ok out ↔
      ∃ g, f.appliedTo? v = some g ∧ out = .lambda g :: rest := by
  rw [Action.apply, rule_two_cons, Lambda.appliedTo?]
  dsimp only
  generalize f.arg.simplify = t
  cases t with
  | pair l r =>
    by_cases h : l.equals v.simplify
    · simp [h, eq_comm]
    · simp [h, Outcome.refuse]
  | _ => simp [Outcome.refuse]

end Action

theorem Ty.pair_equals_pair (a b c d : Ty) :
    (Ty.pair a b).equals (.pair c d) = (a.equals c && b.equals d) := by
  rw [Ty.equals]

/-- A pair equals nothing but pairs, records and `universal`. -/
theorem Ty.pair_equals_of_ne {a b t : Ty} (hr : t.isRecord = false) (hu : t.isUniversal = false)
    (hp : ∀ l r, t ≠ .pair l r) : (Ty.pair a b).equals t = false := by
  cases t with
  | record => cases hr
  | universal => cases hu
  | pair l r => exact absurd rfl (hp l r)
  | _ => rw [Ty.equals] <;> simp

namespace Lambda

variable {f g : Lambda} {v : Ty}

theorem eq_of_appliedTo? (h : f.appliedTo? v = some g) :
    ∃ l r, f.arg.simplify = .pair l r ∧ l.equals v.simplify ∧
      g = ⟨r, f.ret, f.body, f.applied ++ [v]⟩ := by
  unfold appliedTo? at h
  split at h
  · split at h
    · cases h
      exact ⟨_, _, ‹_›, ‹_›, rfl⟩
    · cases h
  · cases h

/-- A pair is accepted if its first component can be applied and what is left accepts the second one. -/
theorem accepts_pair (hf : f.arg.within Fragment.noUniversal.outer) (v c : Ty) :
    f.accepts (.pair v c) ↔ ∃ g, f.appliedTo? v = some g ∧ g.accepts c := by
  have hwithin := Ty.within_simplify hf
  have hrecord := f.arg.isRecord_simplify
  have hsimple := f.arg.simplify_simplify
  rw [accepts, Ty.simplify, appliedTo?]
  generalize f.arg.simplify = t at hwithin hrecord hsimple ⊢
  split
  · rename_i l r
    rw [Ty.simplify, Ty.pair.injEq] at hsimple
    rw [Ty.pair_equals_pair, Bool.and_eq_true]
    constructor
    · rintro ⟨hv, hc⟩
      exact ⟨_, if_pos (Ty.equals_symm hv), by rwa [accepts, hsimple.2]⟩
    · rintro ⟨g, hg, hc⟩
      split at hg
      · cases hg
        rw [accepts, hsimple.2] at hc
        exact ⟨Ty.equals_symm ‹_›, hc⟩
      · cases hg
  · have hu := Ty.isUniversal_of_within rfl hwithin
    rw [Ty.pair_equals_of_ne hrecord hu ‹_›]
    simp

theorem within_of_appliedTo? {fr : Fragment} (hf : f.arg.within fr) (h : f.appliedTo? v = some g) :
    g.arg.within fr := by
  obtain ⟨l, r, hp, -, rfl⟩ := eq_of_appliedTo? h
  have hpair := Ty.within_simplify hf
  rw [hp, Ty.within, Bool.and_eq_true] at hpair
  exact hpair.2

theorem appliedToEach?_cons_eq_some {vs : List Ty} :
    f.appliedToEach? (v :: vs) = some g ↔
      ∃ mid, f.appliedTo? v = some mid ∧ mid.appliedToEach? vs = some g := by
  rw [appliedToEach?, Option.bind_eq_some_iff]

/-- A comb is accepted if all its components but the last can be applied and what is left accepts that. -/
theorem accepts_comb (hf : f.arg.within Fragment.noUniversal.outer) {vs : List Ty} {last c : Ty}
    (hc : Ty.comb? (vs ++ [last]) = some c) :
    f.accepts c ↔ ∃ g, f.appliedToEach? vs = some g ∧ g.accepts last := by
  induction vs generalizing f c with
  | nil =>
    cases hc
    simp [appliedToEach?]
  | cons v vs ih =>
    have hne : vs ++ [last] ≠ [] := by simp
    rw [List.cons_append, Ty.comb?, Option.map_eq_some_iff] at hc
    · obtain ⟨c, hc, rfl⟩ := hc
      rw [accepts_pair hf]
      constructor
      · rintro ⟨g, hg, haccepts⟩
        obtain ⟨g', hg', hlast⟩ := (ih (within_of_appliedTo? hf hg) hc).mp haccepts
        exact ⟨g', appliedToEach?_cons_eq_some.mpr ⟨g, hg, hg'⟩, hlast⟩
      · rintro ⟨g', hg', hlast⟩
        obtain ⟨g, hg, hg'⟩ := appliedToEach?_cons_eq_some.mp hg'
        exact ⟨g, hg, (ih (within_of_appliedTo? hf hg) hc).mpr ⟨g', hg', hlast⟩⟩
    · exact hne

/-- What is applied is remembered in order, and nothing else changes but the argument. -/
theorem eq_of_appliedToEach? {vs : List Ty} (h : f.appliedToEach? vs = some g) :
    g = ⟨g.arg, f.ret, f.body, f.applied ++ vs⟩ := by
  induction vs generalizing f with
  | nil =>
    obtain ⟨arg, ret, body, applied⟩ := f
    cases h
    rw [List.append_nil]
  | cons v vs ih =>
    obtain ⟨mid, hm, h⟩ := appliedToEach?_cons_eq_some.mp h
    obtain ⟨l, r, -, -, rfl⟩ := eq_of_appliedTo? hm
    have hg := ih h
    simpa using hg

/-- Arguments may be applied in one go or one part after the other. -/
theorem appliedToEach?_append (vs ws : List Ty) :
    f.appliedToEach? (vs ++ ws) = (f.appliedToEach? vs).bind (appliedToEach? · ws) := by
  induction vs generalizing f with
  | nil => rfl
  | cons v vs ih =>
    rw [List.cons_append, appliedToEach?, appliedToEach?, Option.bind_assoc]
    congr
    funext g
    exact ih

end Lambda

namespace Check

variable {f : Lambda} {ctx : Context} {rest out : List Ty}

theorem call_eq_ok_iff {arg : Ty} :
    (call arg).rule ctx (.lambda f :: rest) = .ok out ↔ f.accepts arg ∧ out = f.ret :: rest := by
  rw [rule_call, Action.exec_eq_ok_iff]

theorem run_call {arg : Ty} (h : f.accepts arg) (ctx : Context) (rest : List Ty)
    (frames : List (List Ty)) :
    ((call arg).run ⟨ctx, ⟨.lambda f :: rest, frames⟩⟩).outcome = .ok () ∧
      ((call arg).run ⟨ctx, ⟨.lambda f :: rest, frames⟩⟩).state = ⟨ctx, ⟨f.ret :: rest, frames⟩⟩ :=
  (confined_call arg).run_of_rule (call_eq_ok_iff.mpr ⟨h, rfl⟩) frames

theorem applyEach_eq_ok_iff {vs : List Ty} :
    (applyEach vs).rule ctx (.lambda f :: rest) = .ok out ↔
      ∃ g, f.appliedToEach? vs = some g ∧ out = .lambda g :: rest := by
  induction vs generalizing f with
  | nil =>
    rw [applyEach, rule_pure]
    simp [Lambda.appliedToEach?, eq_comm]
  | cons v vs ih =>
    rw [rule_applyEach_cons, Outcome.bind_eq_ok]
    constructor
    · rintro ⟨mid, hm, ho⟩
      obtain ⟨g, hg, rfl⟩ := Action.apply_eq_ok_iff.mp hm
      obtain ⟨g', hg', rfl⟩ := ih.mp ho
      exact ⟨g', Lambda.appliedToEach?_cons_eq_some.mpr ⟨g, hg, hg'⟩, rfl⟩
    · rintro ⟨g', hg', rfl⟩
      obtain ⟨g, hg, hg'⟩ := Lambda.appliedToEach?_cons_eq_some.mp hg'
      exact ⟨_, Action.apply_eq_ok_iff.mpr ⟨g, hg, rfl⟩, ih.mpr ⟨g', hg', rfl⟩⟩

theorem confined_applyEach_call (vs : List Ty) (last : Ty) :
    (do applyEach vs; call last).Confined :=
  .bind (confined_applyEach vs) fun _ => confined_call last

/-- Applying some arguments and calling with the last one leaves the result of the lambda. -/
theorem applyEach_call_eq_ok_iff {vs : List Ty} {last : Ty} :
    (do applyEach vs; call last).rule ctx (.lambda f :: rest) = .ok out ↔
      (∃ g, f.appliedToEach? vs = some g ∧ g.accepts last) ∧ out = f.ret :: rest := by
  rw [rule_seq _ _ (confined_applyEach vs), Outcome.bind_eq_ok]
  constructor
  · rintro ⟨mid, hm, ho⟩
    obtain ⟨g, hg, rfl⟩ := applyEach_eq_ok_iff.mp hm
    obtain ⟨hlast, rfl⟩ := call_eq_ok_iff.mp ho
    refine ⟨⟨g, hg, hlast⟩, ?_⟩
    rw [Lambda.eq_of_appliedToEach? hg]
  · rintro ⟨⟨g, hg, hlast⟩, rfl⟩
    refine ⟨_, applyEach_eq_ok_iff.mpr ⟨g, hg, rfl⟩, call_eq_ok_iff.mpr ⟨hlast, ?_⟩⟩
    rw [Lambda.eq_of_appliedToEach? hg]

end Check

theorem Rule.eq_of_returns {ret : Ty} {left : List Ty} {u : Unit}
    (h : returns ret left = .ok u) : left = [.universal] ∨ ∃ t, left = [t] ∧ t.equals ret := by
  unfold returns at h
  split at h
  · exact .inl (isDiverged_iff.mp ‹_›)
  · split at h
    · split at h
      · exact .inr ⟨_, rfl, ‹_›⟩
      · cases h
    · cases h

section

variable {ctx : Context} {slots out : List Ty} {arg ret : Ty} {body : List Instr}

/-- A lambda that is accepted is on top, and its body has been accepted on the argument alone. -/
theorem exists_of_rule_lambda
    (h : (Instr.check ⟨.lambda, [.type arg, .type ret, .code body]⟩).rule ctx slots = .ok out) :
    out = .function arg ret body :: slots ∧ ∃ left, (checkCode body).rule ctx [arg] = .ok left ∧
      (left = [.universal] ∨ ∃ t, left = [t] ∧ t.equals ret) := by
  have hrule : (Instr.check ⟨.lambda, [.type arg, .type ret, .code body]⟩).rule ctx slots =
      Rule.lambda arg ret body (Body.rule ⟨body, checkCode body⟩ .lambda ctx) slots := by
    simp only [Instr.rule_check, operands, Arg.operand]
    rfl
  rw [hrule] at h
  obtain ⟨left, hleft, h⟩ := Outcome.bind_eq_ok.mp h
  obtain ⟨u, hreturns, h⟩ := Outcome.bind_eq_ok.mp h
  cases h
  refine ⟨rfl, left, ?_, Rule.eq_of_returns hreturns⟩
  rcases Body.rule_cut_or_same body .lambda ctx [arg] with ⟨op, hcut⟩ | hsame
  · rw [hcut] at hleft
    cases hleft
  · rw [← hsame, hleft]

/-- What code leaves of the argument alone it leaves above any other slots. -/
theorem rule_in_place {left : List Ty} (hs : typesWithin Fragment.noUniversal.outer slots)
    (ha : arg.within Fragment.noUniversal.outer) (hb : codeWithin Fragment.noUniversal.outer body)
    (h : (checkCode body).rule ctx [arg] = .ok left) :
    (checkCode body).rule ctx (arg :: slots) =
      .ok (if isDiverged left then [.universal] else left ++ slots) := by
  have hraised := weakens_checkCode rfl hs body hb ctx [arg] (by simp [ha])
  rw [h] at hraised
  obtain ⟨out, hout, ⟨hwithin, rfl⟩ | ⟨rfl, rfl⟩⟩ := hraised
  · rw [isDiverged_of_within rfl hwithin]
    exact hout
  · exact hout

end

/-- A lambda that is accepted can be called with every type that equals its argument, and gives its result. Where there
is no `universal` about, its body can be run in place on any stack: it ends with a type that equals the result in place
of the argument, or never. -/
theorem lambda_calls_and_inlines (ctx : Context) (frames : List (List Ty)) (slots : List Ty)
    (arg ret : Ty) (body : List Instr)
    (h : ((Instr.check ⟨.lambda, [.type arg, .type ret, .code body]⟩).run
      ⟨ctx, ⟨slots, frames⟩⟩).outcome = .ok ()) :
    let made := ((Instr.check ⟨.lambda, [.type arg, .type ret, .code body]⟩).run
      ⟨ctx, ⟨slots, frames⟩⟩).state
    (∀ v : Ty, v.equals arg →
      ((Check.call v).run made).outcome = .ok () ∧
        ((Check.call v).run made).state = ⟨ctx, ⟨ret :: slots, frames⟩⟩) ∧
    (typesWithin Fragment.noUniversal.outer slots → arg.within Fragment.noUniversal.outer →
      codeWithin Fragment.noUniversal.outer body →
      let inPlace := (checkCode body).run ⟨ctx, ⟨arg :: slots, frames⟩⟩
      inPlace.outcome = .ok () ∧
        (inPlace.state = ⟨ctx, ⟨[.universal], frames⟩⟩ ∨
          ∃ r, r.equals ret ∧ inPlace.state = ⟨ctx, ⟨r :: slots, frames⟩⟩)) := by
  intro made
  have hlambda := instr_confined ⟨.lambda, [.type arg, .type ret, .code body]⟩
  obtain ⟨out, hrule⟩ := hlambda.outcome_eq_ok_iff.mp h
  obtain ⟨-, hmade⟩ := hlambda.run_of_rule hrule frames
  obtain ⟨rfl, left, hleft, hreturns⟩ := exists_of_rule_lambda hrule
  have hbody := checkCode_confined body
  refine ⟨fun v hv => ?_, fun hs ha hb => ?_⟩
  · have haccepts : Lambda.accepts ⟨arg, ret, body, []⟩ v := Ty.simplify_equals_simplify hv
    rw [show made = _ from hmade]
    exact Check.run_call haccepts ctx slots frames
  · intro inPlace
    obtain ⟨ho, hstate⟩ := hbody.run_of_rule (rule_in_place hs ha hb hleft) frames
    refine ⟨ho, ?_⟩
    cases hd : isDiverged left with
    | true =>
      rw [hd, if_pos rfl] at hstate
      exact .inl hstate
    | false =>
      rw [hd, if_neg Bool.false_ne_true] at hstate
      rcases hreturns with rfl | ⟨r, rfl, hr⟩
      · cases hd
      · exact .inr ⟨r, hr, hstate⟩

/-- A lambda from a record is called with a pair that the record stands for, two scopes in and above a slot. -/
theorem lambda_calls_and_inlines_record :
    let point : Ty := .record ⟨"point", [⟨"x", .int⟩, ⟨"y", .nat⟩]⟩
    let body : List Instr := [⟨.unpair, []⟩, ⟨.add, []⟩, ⟨.some, []⟩]
    let ctx : Context := ⟨⟨8⟩, 2⟩
    let made := ((Instr.check ⟨.lambda, [.type point, .type (.option .int), .code body]⟩).run
      ⟨ctx, ⟨[.string], [[.unit]]⟩⟩).state
    let called := (Check.call (.pair .int .nat)).run made
    called.outcome = .ok () ∧ called.state = ⟨ctx, ⟨[.option .int, .string], [[.unit]]⟩⟩ ∧
      ((checkCode body).run ⟨ctx, ⟨[point, .string], [[.unit]]⟩⟩).outcome = .ok () := by
  intro point body ctx made called
  have hmade : ((Instr.check ⟨.lambda, [.type point, .type (.option .int), .code body]⟩).run
      ⟨ctx, ⟨[.string], [[.unit]]⟩⟩).outcome = .ok () := by
    simp only [point, body, ctx]
    cbv
  have hequals : (Ty.pair .int .nat).equals point := by
    simp only [point]
    cbv
  obtain ⟨hcall, hinPlace⟩ :=
    lambda_calls_and_inlines ctx [[.unit]] [.string] point (.option .int) body hmade
  obtain ⟨ho, hstate⟩ := hcall _ hequals
  obtain ⟨hin, -⟩ := hinPlace (by decide) (by decide) (by decide)
  exact ⟨ho, hstate, hin⟩

/-- A lambda whose argument has no `universal` in it can be called with the comb of some types exactly if it can be
applied to all of them but the last and then called with that. Both leave its result, and on the way it remembers what
it has been applied to. -/
theorem apply_curries_exec (ctx : Context) (frames : List (List Ty)) (slots : List Ty) (f : Lambda)
    (hf : f.arg.within Fragment.noUniversal.outer) (vs : List Ty) (last : Ty) :
    let start : State := ⟨ctx, ⟨.lambda f :: slots, frames⟩⟩
    let done : State := ⟨ctx, ⟨f.ret :: slots, frames⟩⟩
    let each := (do Check.applyEach vs; Check.call last).run start
    ∃ c, Ty.comb? (vs ++ [last]) = some c ∧
      let whole := (Check.call c).run start
      (each.outcome = .ok () ↔ whole.outcome = .ok ()) ∧
      (each.outcome = .ok () → each.state = done ∧ whole.state = done ∧
        ∀ k, let part := (Check.applyEach (vs.take k)).run start
          part.outcome = .ok () ∧ ∃ arg, part.state =
            ⟨ctx, ⟨.lambda ⟨arg, f.ret, f.body, f.applied ++ vs.take k⟩ :: slots, frames⟩⟩) := by
  intro start done each
  have hne : vs ++ [last] ≠ [] := by simp
  obtain ⟨c, hc⟩ := Option.isSome_iff_exists.mp (Ty.comb?_isSome hne)
  have hconfined := Check.confined_applyEach_call vs last
  have heach : each.outcome = .ok () ↔ ∃ g, f.appliedToEach? vs = some g ∧ g.accepts last := by
    rw [hconfined.outcome_eq_ok_iff]
    simp only [Check.applyEach_call_eq_ok_iff, exists_and_left, exists_eq, and_true]
  have hwhole : ((Check.call c).run start).outcome = .ok () ↔ f.accepts c := by
    rw [(Check.confined_call c).outcome_eq_ok_iff]
    simp only [Check.call_eq_ok_iff, exists_and_left, exists_eq, and_true]
  have hagree := Lambda.accepts_comb hf hc
  refine ⟨c, hc, by rw [heach, hwhole, hagree], fun ho => ?_⟩
  obtain ⟨g, hg, hlast⟩ := heach.mp ho
  have hrule : (do Check.applyEach vs; Check.call last).rule ctx (.lambda f :: slots) =
      .ok (f.ret :: slots) := Check.applyEach_call_eq_ok_iff.mpr ⟨⟨g, hg, hlast⟩, rfl⟩
  obtain ⟨-, hdone⟩ := hconfined.run_of_rule hrule frames
  obtain ⟨-, hdone'⟩ := Check.run_call (hagree.mpr ⟨g, hg, hlast⟩) ctx slots frames
  refine ⟨hdone, hdone', fun k => ?_⟩
  rw [← List.take_append_drop k vs, Lambda.appliedToEach?_append] at hg
  obtain ⟨g', hg', -⟩ := Option.bind_eq_some_iff.mp hg
  have hpart : (Check.applyEach (vs.take k)).rule ctx (.lambda f :: slots) =
      .ok (.lambda g' :: slots) := Check.applyEach_eq_ok_iff.mpr ⟨g', hg', rfl⟩
  obtain ⟨hok, hstate⟩ := (Check.confined_applyEach (vs.take k)).run_of_rule hpart frames
  refine ⟨hok, g'.arg, ?_⟩
  rw [← Lambda.eq_of_appliedToEach? hg']
  exact hstate

/-- A lambda from a record of three fields is applied to the first two and called with the third. -/
theorem apply_curries_exec_record :
    let point : Ty := .record ⟨"point", [⟨"x", .int⟩, ⟨"y", .nat⟩, ⟨"name", .string⟩]⟩
    let f : Lambda := ⟨point, .bool, [⟨.failwith, []⟩], [.bytes]⟩
    let start : State := ⟨⟨⟨1⟩, 0⟩, ⟨[.lambda f, .mutez], []⟩⟩
    let whole := (Check.call (.pair .int (.pair .nat .string))).run start
    whole.outcome = .ok () ∧ whole.state = ⟨⟨⟨1⟩, 0⟩, ⟨[.bool, .mutez], []⟩⟩ ∧
      ∃ arg, ((Check.applyEach [.int]).run start).state =
        ⟨⟨⟨1⟩, 0⟩, ⟨[.lambda ⟨arg, .bool, [⟨.failwith, []⟩], [.bytes, .int]⟩, .mutez], []⟩⟩ := by
  intro point f start whole
  obtain ⟨c, hc, hiff, hdone⟩ :=
    apply_curries_exec ⟨⟨1⟩, 0⟩ [] [.mutez] f (by decide) [.int, .nat] .string
  cases hc
  have heach :
      ((do Check.applyEach [.int, .nat]; Check.call .string).run start).outcome = .ok () := by
    simp only [start, f, point]
    cbv
  obtain ⟨-, hwhole, hpart⟩ := hdone heach
  exact ⟨hiff.mp heach, hwhole, (hpart 1).2⟩

end Michelson

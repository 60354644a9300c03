import Michelson.Proofs.Meaning
import Michelson.Proofs.TypeEquality

namespace Michelson

def Instr.get (n : Nat) : Instr :=
  ⟨.get, [.ofInt n]⟩

def Instr.update (n : Nat) : Instr :=
  ⟨.update, [.ofInt n]⟩

/-- Indices `n` and `m` such that a write at `n` does not touch what is read at `m`: an odd `n` is a left child, which no
other left child and no node further down the spine has in it, and an even `n` is a node that no left child above it has
in it. -/
def Apart (n m : Nat) : Prop :=
  n % 2 = 1 ∧ m ≠ n ∧ (m % 2 = 1 ∨ n < m) ∨ n % 2 = 0 ∧ m % 2 = 1 ∧ m < n

section

variable {n m : Nat}

theorem Apart.not_zero : ¬Apart 0 m := by
  unfold Apart
  omega

theorem Apart.of_one (h : Apart 1 m) : ∃ k, m = k + 2 := by
  unfold Apart at h
  exact ⟨m - 2, by omega⟩

theorem Apart.of_add_two (h : Apart (n + 2) m) : m = 1 ∨ ∃ k, m = k + 2 ∧ Apart n k := by
  unfold Apart at h
  by_cases hm : m = 1
  · exact .inl hm
  · refine .inr ⟨m - 2, by omega, ?_⟩
    unfold Apart
    omega

end

namespace Ty

variable {t u x y c : Ty} {n m : Nat}

/-- What has been written at an index is read there. -/
theorem get?_of_update? (h : t.update? n x = some u) : u.get? n = some x := by
  fun_induction Ty.update? t n x generalizing u with
  | case1 => simpa [get?] using h.symm
  | case2 =>
    cases h
    rfl
  | case3 l r n x ih =>
    obtain ⟨v, hv, rfl⟩ := Option.map_eq_some_iff.mp h
    exact ih hv
  | case4 => cases h

/-- Writing what is there already changes nothing. -/
theorem update?_of_get? (h : t.get? n = some c) : t.update? n c = some t := by
  fun_induction Ty.get? t n with
  | case1 => simpa [update?] using h.symm
  | case2 =>
    cases h
    rfl
  | case3 l r n ih => rw [update?, ih h, Option.map_some]
  | case4 => cases h

/-- The second of two writes at one index is the one that counts. -/
theorem update?_of_update? (h : t.update? n x = some u) : u.update? n y = t.update? n y := by
  fun_induction Ty.update? t n x generalizing u with
  | case1 => simp only [update?]
  | case2 =>
    cases h
    rfl
  | case3 l r n x ih =>
    obtain ⟨v, hv, rfl⟩ := Option.map_eq_some_iff.mp h
    rw [update?, update?, ih hv]
  | case4 => cases h

/-- A write is not seen at an index that is apart from it. -/
theorem get?_of_apart (ha : Apart n m) (h : t.update? n x = some u) : u.get? m = t.get? m := by
  fun_induction Ty.update? t n x generalizing u m with
  | case1 => exact absurd ha Apart.not_zero
  | case2 l r x =>
    obtain ⟨k, rfl⟩ := ha.of_one
    cases h
    rfl
  | case3 l r n x ih =>
    obtain ⟨v, hv, rfl⟩ := Option.map_eq_some_iff.mp h
    obtain rfl | ⟨k, rfl, hk⟩ := ha.of_add_two
    · rfl
    · exact ih hk hv
  | case4 => cases h

/-- A write goes along with unfolding records. -/
theorem simplify_update? (h : t.update? n x = some u) :
    t.simplify.update? n x.simplify = some u.simplify := by
  fun_induction Ty.update? t n x generalizing u with
  | case1 =>
    cases h
    rw [update?]
  | case2 =>
    cases h
    rfl
  | case3 l r n x ih =>
    obtain ⟨v, hv, rfl⟩ := Option.map_eq_some_iff.mp h
    rw [simplify, update?, ih hv, Option.map_some, simplify]
  | case4 => cases h

/-- Below the root, a write is into a pair and leaves a pair. -/
theorem isSome_split?_of_update? (hn : 0 < n) (h : t.update? n x = some u) : u.split?.isSome := by
  fun_induction Ty.update? t n x with
  | case1 => cases hn
  | case2 =>
    cases h
    rfl
  | case3 =>
    obtain ⟨v, -, rfl⟩ := Option.map_eq_some_iff.mp h
    rfl
  | case4 => cases h

/-- The component at a comb index by way of the components on the way to it, each taken out of what the one before it
stands for, through one level of record. -/
def walk? : Ty → Nat → Option Ty
  | t, 0 => some t
  | t, 1 => t.split?.map Prod.fst
  | t, n + 2 => t.split?.bind fun p => p.2.walk? n

/-- A record with a single field, which is a record. -/
def Wraps (t : Ty) (r : Record) : Prop :=
  ∃ name field, t = .record ⟨name, [⟨field, .record r⟩]⟩

/-- A type that can be taken apart stands for the pair of what its components stand for. -/
theorem simplify_of_split? {l r : Ty} (h : t.split? = some (l, r)) :
    t.simplify = .pair l.simplify r.simplify := by
  unfold split? at h
  split at h
  · cases h
    rw [simplify]
  · split at h
    · rename_i hshape
      cases h
      rw [simplify_record, hshape, simplify]
    · cases h
  · cases h

/-- A record that wraps another cannot be taken apart. -/
theorem Wraps.split?_eq_none {r : Record} (h : t.Wraps r) : t.split? = none := by
  obtain ⟨name, field, rfl⟩ := h
  rfl

/-- What stands for a pair and does not come apart as one hides it below two levels of record. -/
theorem wraps_of_split?_eq_none {l r : Ty} (hs : t.split? = none) (h : t.simplify = .pair l r) :
    ∃ inner, t.Wraps inner := by
  cases t with
  | pair => cases hs
  | record s =>
    obtain ⟨name, fields⟩ := s
    match fields with
    | [] => cases h
    | [⟨field, u⟩] =>
      -- the type of the field stands for the same pair and is none itself
      cases u with
      | record inner => exact ⟨inner, name, field, rfl⟩
      | pair => cases hs
      | _ => cases h
    | f :: g :: rest =>
      obtain ⟨c, hc⟩ := Option.isSome_iff_exists.mp
        (comb?_isSome (List.cons_ne_nil g.type (rest.map (·.type))))
      simp [split?, Record.shape_eq, comb?, hc] at hs
  | _ => cases h

/-- A component that is reached on foot is found by its index, in what the whole stands for. -/
theorem get?_simplify_of_walk? (h : t.walk? n = some u) : t.simplify.get? n = some u.simplify := by
  fun_induction walk? t n with
  | case1 =>
    cases h
    rw [get?]
  | case2 t =>
    obtain ⟨⟨l, r⟩, hs, rfl⟩ := Option.map_eq_some_iff.mp h
    rw [simplify_of_split? hs, get?]
  | case3 t n ih =>
    obtain ⟨⟨l, r⟩, hs, hr⟩ := Option.bind_eq_some_iff.mp h
    rw [simplify_of_split? hs, get?]
    exact ih (l, r) hr

theorem isSome_split?_of_walk? (hn : 0 < n) (h : t.walk? n = some u) : t.split?.isSome := by
  match n with
  | 1 =>
    obtain ⟨p, hp, -⟩ := Option.map_eq_some_iff.mp h
    rw [hp, Option.isSome_some]
  | n + 2 =>
    obtain ⟨p, hp, -⟩ := Option.bind_eq_some_iff.mp h
    rw [hp, Option.isSome_some]

/-- An index counts on from a node of the spine. -/
theorem get?_add {j : Nat} (h : t.get? (2 * j) = some u) : t.get? (2 * j + n) = u.get? n := by
  induction j generalizing t with
  | zero =>
    rw [Nat.mul_zero, get?] at h
    cases h
    rw [Nat.mul_zero, Nat.zero_add]
  | succ j ih =>
    cases t with
    | pair l r =>
      rw [Nat.mul_succ, get?] at h
      rw [Nat.mul_succ, Nat.add_right_comm, get?]
      exact ih h
    | _ => cases h

theorem exists_pair_of_get? (hn : 0 < n) (h : t.get? n = some c) : ∃ l r, t = .pair l r := by
  fun_cases get? t n with
  | case1 => cases hn
  | case2 l r => exact ⟨l, r, rfl⟩
  | case3 l r => exact ⟨l, r, rfl⟩
  | case4 hzero hone hmore =>
    rw [get?] at h <;> first | cases h | assumption

/-- A walk ends where it is to go, or at a node of the spine that does not come apart. -/
theorem walk?_or_stuck (t : Ty) (n : Nat) :
    (∃ u, t.walk? n = some u) ∨
      ∃ j u, 2 * j < n ∧ t.walk? (2 * j) = some u ∧ u.split? = none := by
  fun_induction walk? t n with
  | case1 t => exact .inl ⟨t, rfl⟩
  | case2 t =>
    cases hs : t.split? with
    | none => exact .inr ⟨0, t, Nat.one_pos, rfl, hs⟩
    | some p => exact .inl ⟨p.1, rfl⟩
  | case3 t n ih =>
    cases hs : t.split? with
    | none => exact .inr ⟨0, t, Nat.succ_pos _, rfl, hs⟩
    | some p =>
      rcases ih p with ⟨u, hu⟩ | ⟨j, u, hj, hu, hstuck⟩
      · exact .inl ⟨u, hu⟩
      · refine .inr ⟨j + 1, u, by omega, ?_, hstuck⟩
        rw [Nat.mul_succ, walk?, hs, Option.bind_some, hu]

/-- A type that comes apart has a component exactly if a walk leads there, or to a record that wraps another and stands
for a comb with the component. -/
theorem isSome_get?_iff (hn : 0 < n) :
    t.split?.isSome ∧ (t.simplify.get? n).isSome ↔
      (t.walk? n).isSome ∨ ∃ j u r, 0 < j ∧ 2 * j < n ∧ t.walk? (2 * j) = some u ∧ u.Wraps r ∧
        (u.simplify.get? (n - 2 * j)).isSome := by
  -- from a node of the spine on, what it stands for is read
  have hnode {j : Nat} {u : Ty} (hj : 2 * j < n) (hu : t.walk? (2 * j) = some u) :
      t.simplify.get? n = u.simplify.get? (n - 2 * j) := by
    rw [← get?_add (get?_simplify_of_walk? hu), Nat.add_sub_of_le (Nat.le_of_lt hj)]
  constructor
  · rintro ⟨hs, hget⟩
    rcases t.walk?_or_stuck n with ⟨u, hu⟩ | ⟨j, u, hj, hu, hstuck⟩
    · exact .inl (by rw [hu, Option.isSome_some])
    · rw [hnode hj hu] at hget
      obtain ⟨c, hc⟩ := Option.isSome_iff_exists.mp hget
      obtain ⟨l, r, hpair⟩ := exists_pair_of_get? (Nat.sub_pos_of_lt hj) hc
      obtain ⟨inner, hwraps⟩ := wraps_of_split?_eq_none hstuck hpair
      refine .inr ⟨j, u, inner, Nat.pos_of_ne_zero fun hzero => ?_, hj, hu, hwraps, hget⟩
      -- the node is not the type itself, which comes apart
      subst hzero
      cases hu
      rw [hstuck] at hs
      cases hs
  · rintro (hwalk | ⟨j, u, r, hpos, hj, hu, -, hget⟩)
    · obtain ⟨u, hu⟩ := Option.isSome_iff_exists.mp hwalk
      exact ⟨isSome_split?_of_walk? hn hu, by rw [get?_simplify_of_walk? hu, Option.isSome_some]⟩
    · exact ⟨isSome_split?_of_walk? (by omega) hu, by rwa [hnode hj hu]⟩

end Ty

namespace Action

variable {t x : Ty} {n : Nat} {rest out : List Ty}

/-- `GET n` succeeds on what can be taken apart and has a component at `n`, and replaces it by that. -/
theorem getN_eq_ok_iff :
    (getN n).rule .get (t :: rest) = .ok out ↔
      t.split?.isSome ∧ ∃ c, t.simplify.get? n = some c ∧ c :: rest = out := by
  rw [getN, rule_one_cons]
  unfold component
  cases t.split? with
  | none => simp [Outcome.refuse]
  | some p => cases t.simplify.get? n <;> simp [Outcome.refuse]

theorem getN_of_get?_eq_none (hs : t.split?.isSome) (h : t.simplify.get? n = none) :
    (getN n).rule .get (t :: rest) = .refuse (.malformed .get (.indexOutOfRange n t.simplify)) := by
  obtain ⟨p, hp⟩ := Option.isSome_iff_exists.mp hs
  simp [getN, rule_one_cons, component, hp, h]

/-- `UPDATE n` succeeds where `GET n` would, and puts the top slot in the place of the component. -/
theorem updateN_eq_ok_iff :
    (updateN n).rule .update (x :: t :: rest) = .ok out ↔
      t.split?.isSome ∧ ∃ u, t.simplify.update? n x = some u ∧ u :: rest = out := by
  rw [updateN, rule_two_cons]
  unfold component
  cases t.split? with
  | none => simp [Outcome.refuse]
  | some p => cases t.simplify.update? n x <;> simp [Outcome.refuse]

theorem car_of_split? {l r : Ty} (h : t.split? = some (l, r)) :
    car.rule .car (t :: rest) = .ok (l :: rest) := by
  rw [car, onPair, rule_one_cons, h]
  rfl

theorem cdr_of_split? {l r : Ty} (h : t.split? = some (l, r)) :
    cdr.rule .cdr (t :: rest) = .ok (r :: rest) := by
  rw [cdr, onPair, rule_one_cons, h]
  rfl

end Action

section

variable (ctx : Context) (slots : List Ty)

theorem Operand.natAt_ofInt (op : Opcode) (n : Nat) (rest : List Arg) :
    natAt op (operands (.ofInt n :: rest)) 0 =
      if n ≤ Size.max then .ok n else .refuse (.malformed op (.notNat 0)) := by
  simp only [operands, Arg.operand, Arg.ofInt, natAt, List.getElem?_cons_zero]

theorem Operand.nat?_ofInt (op : Opcode) (n : Nat) :
    nat? op (operands [.ofInt n]) =
      if n ≤ Size.max then .ok (some n) else .refuse (.malformed op (.notNat 0)) := by
  change (natAt op (operands [.ofInt n]) 0).map some = _
  rw [natAt_ofInt]
  split <;> rfl

theorem rule_check_get (n : Nat) :
    (Instr.get n).check.rule ctx slots =
      if n ≤ Size.max then (Action.getN n).rule .get slots
      else .refuse (.malformed .get (.notNat 0)) := by
  rw [Instr.get, Instr.rule_check]
  change ((Operand.nat? .get _ >>= _) >>= _) = _
  rw [Operand.nat?_ofInt]
  split <;> rfl

theorem rule_check_update (n : Nat) :
    (Instr.update n).check.rule ctx slots =
      if n ≤ Size.max then (Action.updateN n).rule .update slots
      else .refuse (.malformed .update (.notNat 0)) := by
  rw [Instr.update, Instr.rule_check]
  change ((Operand.nat? .update _ >>= _) >>= _) = _
  rw [Operand.nat?_ofInt]
  split <;> rfl

theorem rule_get_eq_ok_iff {t : Ty} {rest out : List Ty} {n : Nat} :
    (Instr.get n).check.rule ctx (t :: rest) = .ok out ↔
      n ≤ Size.max ∧ t.split?.isSome ∧ ∃ c, t.simplify.get? n = some c ∧ c :: rest = out := by
  rw [rule_check_get]
  by_cases hmax : n ≤ Size.max
  · rw [if_pos hmax, Action.getN_eq_ok_iff, and_iff_right hmax]
  · simp [hmax, Outcome.refuse]

theorem rule_update_eq_ok_iff {t x : Ty} {rest out : List Ty} {n : Nat} :
    (Instr.update n).check.rule ctx (x :: t :: rest) = .ok out ↔
      n ≤ Size.max ∧ t.split?.isSome ∧ ∃ u, t.simplify.update? n x = some u ∧ u :: rest = out := by
  rw [rule_check_update]
  by_cases hmax : n ≤ Size.max
  · rw [if_pos hmax, Action.updateN_eq_ok_iff, and_iff_right hmax]
  · simp [hmax, Outcome.refuse]

theorem rule_check_car : (Instr.check ⟨.car, []⟩).rule ctx slots = Action.car.rule .car slots := by
  rw [Instr.rule_check, operands]
  rfl

theorem rule_check_cdr : (Instr.check ⟨.cdr, []⟩).rule ctx slots = Action.cdr.rule .cdr slots := by
  rw [Instr.rule_check, operands]
  rfl

end

def walkTo : Nat → List Instr
  | 0 => []
  | 1 => [⟨.car, []⟩]
  | n + 2 => ⟨.cdr, []⟩ :: walkTo n

theorem walkTo_even (k : Nat) : walkTo (2 * k) = List.replicate k ⟨.cdr, []⟩ := by
  induction k with
  | zero => rfl
  | succ k ih => rw [Nat.mul_succ, walkTo, ih, List.replicate_succ]

theorem walkTo_odd (k : Nat) :
    walkTo (2 * k + 1) = List.replicate k ⟨.cdr, []⟩ ++ [⟨.car, []⟩] := by
  induction k with
  | zero => rfl
  | succ k ih =>
    rw [Nat.mul_succ, Nat.add_right_comm, walkTo, ih, List.replicate_succ, List.cons_append]

section

variable {g : Fragment} (hg : g.universal = false) {t u : Ty} (ht : t.within g) {n : Nat}
  (ctx : Context) (rest : List Ty)

include hg ht

/-- A step down the spine, after which there is always more to check. -/
theorem rule_walkTo_step {l r : Ty} (hs : t.split? = some (l, r)) :
    (checkCode (walkTo (n + 2))).rule ctx (t :: rest) =
      (checkCode (walkTo n)).rule ctx (r :: rest) := by
  have hlive : isDiverged (r :: rest) = false := by
    have hr := Ty.isUniversal_of_within hg (Ty.within_split ht hs).2
    refine Bool.eq_false_iff.mpr fun hd => ?_
    cases isDiverged_iff.mp hd
    cases hr
  rw [walkTo, rule_checkCode_cons, rule_check_cdr, Action.cdr_of_split? hs]
  simp [hlive]

/-- The code that walks to an index finds the component there. -/
theorem rule_walkTo (h : t.walk? n = some u) :
    (checkCode (walkTo n)).rule ctx (t :: rest) = .ok (u :: rest) := by
  fun_induction Ty.walk? t n with
  | case1 t =>
    cases h
    rw [walkTo, rule_checkCode_nil]
  | case2 t =>
    obtain ⟨⟨l, r⟩, hs, rfl⟩ := Option.map_eq_some_iff.mp h
    rw [walkTo, rule_checkCode_cons, rule_check_car, Action.car_of_split? hs]
    simp [rule_checkCode_nil]
  | case3 t n ih =>
    obtain ⟨⟨l, r⟩, hs, hr⟩ := Option.bind_eq_some_iff.mp h
    rw [rule_walkTo_step hg ht ctx rest hs]
    exact ih (l, r) (Ty.within_split ht hs).2 hr

/-- A walk is refused at the first node of the spine that does not come apart. -/
theorem rule_walkTo_of_stuck {j : Nat} (hj : 2 * j < n) (hu : t.walk? (2 * j) = some u)
    (hs : u.split? = none) :
    ∃ op, (checkCode (walkTo n)).rule ctx (t :: rest) =
      .refuse (.stackTop op [Pairs.anyPair] [u]) := by
  induction j generalizing t n with
  | zero =>
    cases hu
    match n with
    | 1 =>
      refine ⟨.car, ?_⟩
      rw [walkTo, rule_checkCode_cons, rule_check_car, Action.car, Action.onPair,
        Action.rule_one_cons, hs]
      rfl
    | n + 2 =>
      refine ⟨.cdr, ?_⟩
      rw [walkTo, rule_checkCode_cons, rule_check_cdr, Action.cdr, Action.onPair,
        Action.rule_one_cons, hs]
      rfl
  | succ j ih =>
    obtain ⟨n, rfl⟩ : ∃ m, n = m + 2 := ⟨n - 2, by omega⟩
    rw [Nat.mul_succ, Ty.walk?] at hu
    obtain ⟨⟨l, r⟩, hp, hr⟩ := Option.bind_eq_some_iff.mp hu
    rw [rule_walkTo_step hg ht ctx rest hp]
    exact ih (Ty.within_split ht hp).2 (by omega) hr

/-- The code that walks to an index succeeds exactly if there is a component to walk to. -/
theorem rule_walkTo_eq_ok_iff {out : List Ty} :
    (checkCode (walkTo n)).rule ctx (t :: rest) = .ok out ↔
      ∃ u, t.walk? n = some u ∧ u :: rest = out := by
  constructor
  · intro h
    rcases t.walk?_or_stuck n with ⟨u, hu⟩ | ⟨j, u, hj, hu, hs⟩
    · rw [rule_walkTo hg ht ctx rest hu] at h
      cases h
      exact ⟨u, hu, rfl⟩
    · obtain ⟨op, hop⟩ := rule_walkTo_of_stuck hg ht ctx rest hj hu hs
      cases hop.symm.trans h
  · rintro ⟨u, hu, rfl⟩
    exact rule_walkTo hg ht ctx rest hu

end

/-- A walk to a comb index is refused on the way, after at least one step, at a record that wraps another: what this
stands for has the component, but it takes looking through two levels of record. -/
def StopsAtWrapped (ctx : Context) (frames : List (List Ty)) (t : Ty) (rest : List Ty) (n : Nat)
    (walk : List Instr) : Prop :=
  let start : State := ⟨ctx, ⟨t :: rest, frames⟩⟩
  ∃ j u r op, 0 < j ∧ 2 * j < n ∧
    ((checkCode (List.replicate j ⟨.cdr, []⟩)).run start).outcome = .ok () ∧
    ((checkCode (List.replicate j ⟨.cdr, []⟩)).run start).state = ⟨ctx, ⟨u :: rest, frames⟩⟩ ∧
    u.Wraps r ∧ (u.simplify.get? (n - 2 * j)).isSome ∧
    ((checkCode walk).run start).outcome = .refuse (.stackTop op [Pairs.anyPair] [u])

/-- `GET n` and a walk succeed together, but for a walk that stops at a wrapped record. Then both leave the slots below
the top as they are, and on top types that stand for the same. -/
def ReadsLike (ctx : Context) (frames : List (List Ty)) (t : Ty) (rest : List Ty) (n : Nat)
    (walk : List Instr) : Prop :=
  let start : State := ⟨ctx, ⟨t :: rest, frames⟩⟩
  let get := (Instr.get n).check.run start
  let walked := (checkCode walk).run start
  (get.outcome = .ok () ↔ walked.outcome = .ok () ∨ StopsAtWrapped ctx frames t rest n walk) ∧
  (walked.outcome = .ok () → ∃ x y, get.state = ⟨ctx, ⟨x :: rest, frames⟩⟩ ∧
    walked.state = ⟨ctx, ⟨y :: rest, frames⟩⟩ ∧ x.simplify = y.simplify)

section

variable (ctx : Context) (frames : List (List Ty)) {t : Ty} (rest : List Ty) {n : Nat}

theorem outcome_get_eq_ok_iff :
    ((Instr.get n).check.run ⟨ctx, ⟨t :: rest, frames⟩⟩).outcome = .ok () ↔
      n ≤ Size.max ∧ t.split?.isSome ∧ (t.simplify.get? n).isSome := by
  rw [(instr_confined (.get n)).outcome_eq_ok_iff]
  simp only [rule_get_eq_ok_iff, Option.isSome_iff_exists]
  grind

theorem outcome_update_eq_ok_iff {x : Ty} :
    ((Instr.update n).check.run ⟨ctx, ⟨x :: t :: rest, frames⟩⟩).outcome = .ok () ↔
      n ≤ Size.max ∧ t.split?.isSome ∧ (t.simplify.update? n x).isSome := by
  rw [(instr_confined (.update n)).outcome_eq_ok_iff]
  simp only [rule_update_eq_ok_iff, Option.isSome_iff_exists]
  grind

variable (ht : t.within Fragment.noUniversal.outer)

include ht

theorem outcome_walkTo_eq_ok_iff :
    ((checkCode (walkTo n)).run ⟨ctx, ⟨t :: rest, frames⟩⟩).outcome = .ok () ↔
      (t.walk? n).isSome := by
  simp only [(checkCode_confined (walkTo n)).outcome_eq_ok_iff, rule_walkTo_eq_ok_iff rfl ht,
    Option.isSome_iff_exists]
  grind

/-- Where a walk stops at a wrapped record, told by the types on the way. -/
theorem stopsAtWrapped_iff :
    StopsAtWrapped ctx frames t rest n (walkTo n) ↔
      ∃ j u r, 0 < j ∧ 2 * j < n ∧ t.walk? (2 * j) = some u ∧ u.Wraps r ∧
        (u.simplify.get? (n - 2 * j)).isSome := by
  have hwalk (m : Nat) := checkCode_confined (walkTo m)
  constructor
  · rintro ⟨j, u, r, op, hpos, hj, ho, hstate, hwraps, hget, -⟩
    have hrule : (checkCode (walkTo (2 * j))).rule ctx (t :: rest) = .ok (u :: rest) := by
      rw [walkTo_even]
      exact (Check.rule_eq_ok_iff (checkCode_confined _) (s := ⟨ctx, ⟨t :: rest, frames⟩⟩)).mpr
        ⟨ho, by rw [hstate]⟩
    obtain ⟨v, hv, hcons⟩ := (rule_walkTo_eq_ok_iff rfl ht ctx rest).mp hrule
    cases hcons
    exact ⟨j, u, r, hpos, hj, hv, hwraps, hget⟩
  · rintro ⟨j, u, r, hpos, hj, hu, hwraps, hget⟩
    obtain ⟨op, hop⟩ := rule_walkTo_of_stuck rfl ht ctx rest hj hu hwraps.split?_eq_none
    obtain ⟨ho, hstate⟩ :=
      (hwalk (2 * j)).run_of_rule (rule_walkTo rfl ht ctx rest hu) frames
    rw [walkTo_even] at ho hstate
    exact ⟨j, u, r, op, hpos, hj, ho, hstate, hwraps, hget,
      (Check.rule_eq_error_iff (hwalk n) (s := ⟨ctx, ⟨t :: rest, frames⟩⟩)).mp hop⟩

theorem readsLike_walkTo (hn : 0 < n) (hmax : n ≤ Size.max) :
    ReadsLike ctx frames t rest n (walkTo n) := by
  refine ⟨?_, fun hok => ?_⟩
  · rw [outcome_get_eq_ok_iff, and_iff_right hmax, outcome_walkTo_eq_ok_iff ctx frames rest ht,
      stopsAtWrapped_iff ctx frames rest ht, Ty.isSome_get?_iff hn]
  · rw [outcome_walkTo_eq_ok_iff ctx frames rest ht] at hok
    obtain ⟨u, hu⟩ := Option.isSome_iff_exists.mp hok
    have hget : (Instr.get n).check.rule ctx (t :: rest) = .ok (u.simplify :: rest) := by
      rw [rule_get_eq_ok_iff]
      exact ⟨hmax, Ty.isSome_split?_of_walk? hn hu, _, Ty.get?_simplify_of_walk? hu, rfl⟩
    have hwalk := rule_walkTo rfl ht ctx rest hu
    exact ⟨u.simplify, u, ((instr_confined _).run_of_rule hget frames).2,
      ((checkCode_confined _).run_of_rule hwalk frames).2, u.simplify_simplify⟩

end

/-- `GET 3` reads a component of a record that is wrapped in another, where `CDR` and then `CAR` are refused. -/
theorem get_reads_where_walk_stops :
    let point : Ty := .record ⟨"point", [⟨"x", .int⟩, ⟨"y", .nat⟩]⟩
    let place : Ty := .record ⟨"place", [⟨"at", point⟩]⟩
    let start : State := ⟨.ofConfig {}, .ofSlots [.pair .string place]⟩
    let get := (Instr.get 3).check.run start
    let walked := (checkCode [⟨.cdr, []⟩, ⟨.car, []⟩]).run start
    (Ty.pair .string place).within .noUniversal ∧ get.outcome = .ok () ∧
      get.state.stack.visible = [.int] ∧
      walked.outcome = .refuse (.stackTop .car [.pair (.var "a") (.var "b")] [place]) := by
  intro point place start get walked
  refine ⟨rfl, ?_, ?_, ?_⟩
  · simp only [get, start, place, point]
    cbv
  · simp only [get, start, place, point]
    cbv
  · simp only [walked, start, place, point]
    cbv

/-- Where there is no `universal` in the type on top, reading a component at an odd index goes like as many `CDR` as
there are nodes above it and a `CAR`, and at an even index like the `CDR` alone. -/
theorem get_goes_like_walk (ctx : Context) (frames : List (List Ty)) (t : Ty) (rest : List Ty)
    (ht : t.within Fragment.noUniversal.outer) (k : Nat) (hk : 2 * k + 1 ≤ Size.max) :
    let cdrs : List Instr := List.replicate k ⟨.cdr, []⟩
    ReadsLike ctx frames t rest (2 * k + 1) (cdrs ++ [⟨.car, []⟩]) ∧
      (1 ≤ k → ReadsLike ctx frames t rest (2 * k) cdrs) := by
  intro cdrs
  refine ⟨?_, fun hpos => ?_⟩
  · rw [← walkTo_odd]
    exact readsLike_walkTo ctx frames rest ht (Nat.succ_pos _) hk
  · rw [show cdrs = walkTo (2 * k) from (walkTo_even k).symm]
    exact readsLike_walkTo ctx frames rest ht (by omega) (by omega)

/-- The last field of a record, which is a record, and the first field of that. -/
theorem get_goes_like_walk_record :
    let point : Ty := .record ⟨"point", [⟨"x", .int⟩, ⟨"y", .nat⟩]⟩
    let visit : Ty := .record ⟨"visit", [⟨"who", .address⟩, ⟨"when", .timestamp⟩, ⟨"at", point⟩]⟩
    let start : State := ⟨.ofConfig {}, ⟨[visit, .unit], [[.bool]]⟩⟩
    ((Instr.get 5).check.run start).outcome = .ok () ∧
      ∃ x y, ((Instr.get 4).check.run start).state = ⟨.ofConfig {}, ⟨[x, .unit], [[.bool]]⟩⟩ ∧
        ((checkCode [⟨.cdr, []⟩, ⟨.cdr, []⟩]).run start).state =
          ⟨.ofConfig {}, ⟨[y, .unit], [[.bool]]⟩⟩ ∧ x.simplify = y.simplify := by
  intro point visit start
  have hleft : ((checkCode [⟨.cdr, []⟩, ⟨.cdr, []⟩, ⟨.car, []⟩]).run start).outcome = .ok () := by
    simp only [start, visit, point]
    cbv
  have hnode : ((checkCode [⟨.cdr, []⟩, ⟨.cdr, []⟩]).run start).outcome = .ok () := by
    simp only [start, visit, point]
    cbv
  obtain ⟨⟨hodd, -⟩, heven⟩ :=
    get_goes_like_walk (.ofConfig {}) [[.bool]] visit [.unit] (by decide) 2 (by decide)
  exact ⟨hodd.mpr (.inl hleft), (heven (by decide)).2 hnode⟩

/-- Nothing is read, for there is no component at this comb index. -/
def OutOfRange {α : Type} (n : Nat) (o : Outcome TypeError α) : Prop :=
  ∃ comb, o = .refuse (.malformed .get (.indexOutOfRange n comb))

section

variable (ctx : Context) (rest : List Ty) {t u x : Ty} {n m : Nat}

/-- What a write leaves comes apart, and stands for what the written type stands for, put in its place. -/
theorem Ty.simplify_of_update? (hn : 0 < n) (h : t.simplify.update? n x = some u) :
    u.split?.isSome ∧ t.simplify.update? n x.simplify = some u.simplify := by
  refine ⟨Ty.isSome_split?_of_update? hn h, ?_⟩
  rw [← Ty.simplify_update? h, Ty.simplify_simplify]

/-- Types that come apart and have the same component at an index are read alike there. -/
theorem rule_get_congr (ht : t.split?.isSome) (hu : u.split?.isSome)
    (h : u.simplify.get? m = t.simplify.get? m) :
    (Instr.get m).check.rule ctx (u :: rest) = (Instr.get m).check.rule ctx (t :: rest) ∨
      OutOfRange m ((Instr.get m).check.rule ctx (t :: rest)) ∧
        OutOfRange m ((Instr.get m).check.rule ctx (u :: rest)) := by
  rw [rule_check_get, rule_check_get]
  split
  · cases hc : t.simplify.get? m with
    | some c =>
      rw [hc] at h
      left
      rw [Action.getN_eq_ok_iff.mpr ⟨ht, c, hc, rfl⟩, Action.getN_eq_ok_iff.mpr ⟨hu, c, h, rfl⟩]
    | none =>
      rw [hc] at h
      exact .inr ⟨⟨_, Action.getN_of_get?_eq_none ht hc⟩, _, Action.getN_of_get?_eq_none hu h⟩
  · exact .inl rfl

end

/-- `UPDATE n` succeeds exactly if `GET n` does on the stack without the new component. After it, `GET n` reads what the
new component stands for, and at an index apart from `n` the same is read as before, or again nothing. On combs, writing
what was read changes nothing, and of two writes at the same index the second counts. -/
theorem get_and_update_form_lens (ctx : Context) (frames : List (List Ty)) (t x : Ty)
    (rest : List Ty) (n : Nat) :
    let start : State := ⟨ctx, ⟨t :: rest, frames⟩⟩
    let update := (Instr.update n).check.run ⟨ctx, ⟨x :: t :: rest, frames⟩⟩
    (update.outcome = .ok () ↔ ((Instr.get n).check.run start).outcome = .ok ()) ∧
    (1 ≤ n → update.outcome = .ok () →
      let written := (Instr.get n).check.run update.state
      written.outcome = .ok () ∧ written.state = ⟨ctx, ⟨x.simplify :: rest, frames⟩⟩ ∧
      ∀ m, Apart n m →
        let before := (Instr.get m).check.run start
        let after := (Instr.get m).check.run update.state
        after.outcome = before.outcome ∧ (after.outcome = .ok () → after.state = before.state) ∨
          OutOfRange m before.outcome ∧ OutOfRange m after.outcome) ∧
    (∀ w c : Ty, w.get? n = some c → w.update? n c = some w) ∧
    (∀ w a b v : Ty, w.update? n a = some v → v.update? n b = w.update? n b) := by
  intro start update
  have hget (m : Nat) := instr_confined (.get m)
  have hupdate := instr_confined (.update n)
  refine ⟨?_, fun hn hok => ?_, fun w c => Ty.update?_of_get?, fun w a b v => Ty.update?_of_update?⟩
  · rw [outcome_update_eq_ok_iff, outcome_get_eq_ok_iff, Ty.isSome_update?]
  · obtain ⟨out, hout⟩ := hupdate.outcome_eq_ok_iff.mp hok
    obtain ⟨hmax, ht, u, hu, rfl⟩ := (rule_update_eq_ok_iff ctx).mp hout
    obtain ⟨husplit, husimplify⟩ := Ty.simplify_of_update? hn hu
    have hstate : update.state = ⟨ctx, ⟨u :: rest, frames⟩⟩ := (hupdate.run_of_rule hout frames).2
    have hread : (Instr.get n).check.rule ctx (u :: rest) = .ok (x.simplify :: rest) := by
      rw [rule_get_eq_ok_iff]
      exact ⟨hmax, husplit, _, Ty.get?_of_update? husimplify, rfl⟩
    rw [hstate]
    obtain ⟨ho, hs⟩ := (hget n).run_of_rule hread frames
    refine ⟨ho, hs, fun m hm => ?_⟩
    rcases rule_get_congr ctx rest ht husplit (Ty.get?_of_apart hm husimplify) with
      hsame | ⟨⟨c, hc⟩, ⟨d, hd⟩⟩
    · exact .inl ((hget m).run_congr (hget m) hsame frames)
    · right
      refine ⟨⟨c, ?_⟩, d, ?_⟩
      · exact (Check.rule_eq_error_iff (hget m) (s := start)).mp hc
      · exact (Check.rule_eq_error_iff (hget m) (s := ⟨ctx, ⟨u :: rest, frames⟩⟩)).mp hd

/-- Another type for the middle one of three fields: it is read back unfolded, the fields around it are read as before,
and there is still nothing beyond them. -/
theorem get_and_update_form_lens_record :
    let point : Ty := .record ⟨"point", [⟨"x", .int⟩, ⟨"y", .nat⟩]⟩
    let visit : Ty := .record ⟨"visit", [⟨"who", .address⟩, ⟨"when", .timestamp⟩, ⟨"why", .string⟩]⟩
    let update := (Instr.update 3).check.run ⟨.ofConfig {}, ⟨[point, visit, .unit], [[.bool]]⟩⟩
    let get (n : Nat) := (Instr.get n).check.run update.state
    update.outcome = .ok () ∧ (get 3).outcome = .ok () ∧
      (get 3).state = ⟨.ofConfig {}, ⟨[.pair .int .nat, .unit], [[.bool]]⟩⟩ ∧
      (get 1).outcome = .ok () ∧
      (get 1).state = ⟨.ofConfig {}, ⟨[.address, .unit], [[.bool]]⟩⟩ ∧
      OutOfRange 6 (get 6).outcome := by
  intro point visit update get
  have hupdate : update.outcome = .ok () := by
    simp only [update, visit, point]
    cbv
  let before (n : Nat) := (Instr.get n).check.run ⟨.ofConfig {}, ⟨[visit, .unit], [[.bool]]⟩⟩
  have hfirst : (before 1).outcome = .ok () := by
    simp only [before, visit]
    cbv
  have haddress : (before 1).state = ⟨.ofConfig {}, ⟨[.address, .unit], [[.bool]]⟩⟩ := by
    simp only [before, visit]
    cbv
  have hbeyond : (before 6).outcome = .refuse (.malformed .get (.indexOutOfRange 6
      (.pair .address (.pair .timestamp .string)))) := by
    simp only [before, visit]
    cbv
  obtain ⟨-, hafter, -⟩ :=
    get_and_update_form_lens (.ofConfig {}) [[.bool]] visit point [.unit] 3
  obtain ⟨ho, hs, hapart⟩ := hafter (by decide) hupdate
  obtain ⟨hone, hstate⟩ := (hapart 1 (.inl ⟨rfl, by decide, .inl rfl⟩)).resolve_right (by
    rintro ⟨⟨comb, hcomb⟩, -⟩
    cases hcomb.symm.trans hfirst)
  have hok := hone.trans hfirst
  refine ⟨hupdate, ho, hs, hok, (hstate hok).trans haddress, ?_⟩
  rcases hapart 6 (.inl ⟨rfl, by decide, .inr (by decide)⟩) with ⟨hsix, -⟩ | ⟨-, hsix⟩
  · exact ⟨_, hsix.trans hbeyond⟩
  · exact hsix

end Michelson

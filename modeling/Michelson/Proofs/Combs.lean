import Michelson.Proofs.Components
import Michelson.Proofs.Dip

namespace Michelson

def Instr.pair : Instr :=
  ⟨.pair, []⟩

def Instr.pairN (n : Nat) : Instr :=
  ⟨.pair, [.ofInt n]⟩

namespace Ty

variable {ts : List Ty} {c : Ty}

/-- A comb of several types is a pair of the first and the comb of the others. -/
theorem exists_of_comb? (h : comb? ts = some c) (hl : 2 ≤ ts.length) :
    ∃ t us d, ts = t :: us ∧ us ≠ [] ∧ comb? us = some d ∧ c = .pair t d := by
  match ts with
  | [] | [_] => simp at hl
  | t :: u :: us =>
    rw [comb?_cons_cons] at h
    obtain ⟨d, hd, rfl⟩ := Option.map_eq_some_iff.mp h
    exact ⟨t, u :: us, d, rfl, List.cons_ne_nil u us, hd, rfl⟩

/-- The nodes on the spine of a comb are the combs of what is left of the list. -/
theorem get?_comb_even (h : comb? ts = some c) {k : Nat} (hk : k < ts.length) :
    c.get? (2 * k) = comb? (ts.drop k) := by
  induction k generalizing ts c with
  | zero => simp [get?, h]
  | succ k ih =>
    obtain ⟨t, us, d, rfl, -, hd, rfl⟩ := exists_of_comb? h (by omega)
    rw [Nat.mul_succ, get?, List.drop_succ_cons]
    exact ih hd (by simpa using hk)

/-- A type that is not the last is the left child of its node. -/
theorem get?_comb_odd (h : comb? ts = some c) {i : Nat} (hi : i + 1 < ts.length) :
    c.get? (2 * i + 1) = ts[i]? := by
  have hnode := get?_comb_even h (Nat.lt_of_succ_lt hi)
  have hdrop : ts.drop i ≠ [] := by
    rw [Ne, List.drop_eq_nil_iff]
    omega
  obtain ⟨d, hd⟩ := Option.isSome_iff_exists.mp (comb?_isSome hdrop)
  obtain ⟨t, us, e, hus, -, -, rfl⟩ := exists_of_comb? hd (by rw [List.length_drop]; omega)
  rw [get?_add (hnode.trans hd), get?, ← List.head?_drop, hus, List.head?_cons]

/-- There is nothing beyond the last type, unless that is a pair itself. -/
theorem get?_comb_beyond (h : comb? ts = some c) (hlast : ∀ l r, ts.getLast? ≠ some (.pair l r))
    {m : Nat} (hm : 2 * (ts.length - 1) < m) : c.get? m = none := by
  rcases List.eq_nil_or_concat ts with rfl | ⟨init, last, rfl⟩
  · cases h
  · have hnode : c.get? (2 * init.length) = some last := by
      rw [get?_comb_even h (by simp), List.concat_eq_append, List.drop_left, comb?]
    have hj : 2 * init.length < m := by simpa using hm
    obtain ⟨j, rfl⟩ := Nat.exists_eq_add_of_lt hj
    rw [Nat.add_assoc, get?_add hnode]
    refine Option.eq_none_iff_forall_ne_some.mpr fun u hu => ?_
    obtain ⟨l, r, rfl⟩ := exists_pair_of_get? (Nat.succ_pos j) hu
    exact hlast l r (by simp)

end Ty

/-- A record stands for the comb of its fields. -/
theorem Record.shape_of_comb? {r : Record} {c : Ty} (h : Ty.comb? (r.fields.map (·.type)) = some c) :
    r.shape = c := by
  rw [Record.shape_eq, h, Option.getD_some]

namespace Action

open Rule (dip)

theorem pair_cons (x y : Ty) (rest : List Ty) :
    Action.pair.rule .pair (x :: y :: rest) = .ok (.pair x y :: rest) :=
  rule_two_cons .pair x y rest _

/-- `PAIR n` makes a comb of the top `n` slots and keeps the others. -/
theorem pairN_append {ts : List Ty} {c : Ty} (h : Ty.comb? ts = some c) (hl : 2 ≤ ts.length)
    (rest : List Ty) : (pairN ts.length).rule .pair (ts ++ rest) = .ok (c :: rest) := by
  rw [pairN, if_neg (Nat.not_lt.mpr hl), rule_of_le .pair (by simp)]
  simp [h]

/-- The first type is paired with the comb of the others, which is made below it. -/
theorem dip_pairN_andThen_pair {ts : List Ty} {c : Ty} (h : Ty.comb? ts = some c)
    (hl : 3 ≤ ts.length) (rest : List Ty) :
    (dip 1 ((pairN (ts.length - 1)).rule .pair)).andThen (Action.pair.rule .pair) (ts ++ rest) =
      .ok (c :: rest) := by
  obtain ⟨t, us, d, rfl, -, hd, rfl⟩ := Ty.exists_of_comb? h (by omega)
  have hus : 2 ≤ us.length := by simpa using hl
  have hlive : isDiverged (d :: rest) = false := by
    obtain ⟨u, -, e, -, -, -, rfl⟩ := Ty.exists_of_comb? hd hus
    cases rest <;> rfl
  have hdip : dip 1 ((pairN us.length).rule .pair) (t :: (us ++ rest)) = .ok (t :: d :: rest) :=
    Rule.dip_one_of_ok (pairN_append hd hus rest) hlive t
  have hboth : isDiverged (t :: d :: rest) = false := by
    cases t <;> rfl
  rw [List.length_cons, Nat.add_sub_cancel, List.cons_append, Rule.andThen_of_ok hdip hboth,
    pair_cons]

end Action

section

variable (ctx : Context) {n : Nat}

theorem rule_check_pair : Instr.pair.check.rule ctx = Action.pair.rule .pair := by
  funext slots
  rw [Instr.pair, Instr.rule_check, operands]
  rfl

theorem rule_check_pairN (hn : n ≤ Size.max) :
    (Instr.pairN n).check.rule ctx = (Action.pairN n).rule .pair := by
  funext slots
  rw [Instr.pairN, Instr.rule_check]
  change ((Operand.nat? .pair _ >>= _) >>= _) = _
  rw [Operand.nat?_ofInt, if_pos hn]
  rfl

end

/-- A list of several types has one comb, and it comes of all of these: building it from the last type on, any record
with fields of these types, `PAIR n` on the types as slots, and, if there are more than two and there is room for one
more scope, `PAIR` after a `PAIR` of all but the first below it. At an odd index the comb has the type at that place, at
an even one the comb of the types from there on, and beyond these nothing, unless the last type is a pair. -/
theorem combs_agree (ctx : Context) (frames : List (List Ty)) (ts rest : List Ty)
    (hl : 2 ≤ ts.length) :
    let run (code : List Instr) := (checkCode code).run ⟨ctx, ⟨ts ++ rest, frames⟩⟩
    ∃ comb, Ty.comb? ts = some comb ∧ Ty.combFromLast? ts = some comb ∧
      (∀ r : Record, r.fields.map (·.type) = ts → r.shape = comb) ∧
      (ts.length ≤ Size.max →
        let nary := run [.pairN ts.length]
        let nested := run [.dip 1 [.pairN (ts.length - 1)], .pair]
        (nary.outcome = .ok () ∧ nary.state = ⟨ctx, ⟨comb :: rest, frames⟩⟩) ∧
        (3 ≤ ts.length → ctx.HasRoom →
          nested.outcome = .ok () ∧ nested.state = ⟨ctx, ⟨comb :: rest, frames⟩⟩)) ∧
      (∀ i, i < ts.length - 1 → comb.get? (2 * i + 1) = ts[i]?) ∧
      (∀ k, k ≤ ts.length - 1 → comb.get? (2 * k) = Ty.comb? (ts.drop k)) ∧
      ((∀ l r, ts.getLast? ≠ some (.pair l r)) →
        ∀ m, 2 * ts.length - 2 < m → comb.get? m = none) := by
  intro run
  obtain ⟨comb, hcomb⟩ := Option.isSome_iff_exists.mp
    (Ty.comb?_isSome (List.ne_nil_of_length_pos (by omega : 0 < ts.length)))
  refine ⟨comb, hcomb, (Ty.comb?_eq_combFromLast? ts).symm.trans hcomb, fun r hr => ?_,
    fun hmax => ⟨?_, fun hthree hr => ?_⟩, fun i hi => ?_, fun k hk => ?_, fun hlast m hm => ?_⟩
  · exact Record.shape_of_comb? (hr ▸ hcomb)
  · apply (checkCode_confined _).run_of_rule
    rw [rule_checkCode_singleton, rule_check_pairN ctx hmax]
    exact Action.pairN_append hcomb hl rest
  · apply (checkCode_confined _).run_of_rule
    rw [rule_checkCode_two, rule_check_dip_one ctx hr, rule_check_pairN ctx.deeper (by omega),
      rule_check_pair]
    exact Action.dip_pairN_andThen_pair hcomb hthree rest
  · exact Ty.get?_comb_odd hcomb (by omega)
  · exact Ty.get?_comb_even hcomb (by omega)
  · exact Ty.get?_comb_beyond hcomb hlast (by omega)

/-- Three types, the last of them a list, above another slot. -/
theorem combs_agree_three :
    let comb : Ty := .pair .address (.pair .timestamp (.list .nat))
    let visit : Record := ⟨"visit", [⟨"who", .address⟩, ⟨"when", .timestamp⟩, ⟨"seen", .list .nat⟩]⟩
    let start : State := ⟨.ofConfig {}, ⟨[.address, .timestamp, .list .nat, .unit], [[.bool]]⟩⟩
    let run (code : List Instr) := (checkCode code).run start
    visit.shape = comb ∧
      (run [.pairN 3]).outcome = .ok () ∧
      (run [.pairN 3]).state = ⟨.ofConfig {}, ⟨[comb, .unit], [[.bool]]⟩⟩ ∧
      (run [.dip 1 [.pairN 2], .pair]).outcome = .ok () ∧
      (run [.dip 1 [.pairN 2], .pair]).state = ⟨.ofConfig {}, ⟨[comb, .unit], [[.bool]]⟩⟩ ∧
      comb.get? 3 = some .timestamp ∧ comb.get? 4 = some (.list .nat) ∧ comb.get? 5 = none := by
  intro comb visit start run
  obtain ⟨c, hc, -, hshape, hpair, hodd, heven, hbeyond⟩ := combs_agree (.ofConfig {}) [[.bool]]
    [.address, .timestamp, .list .nat] [.unit] (by decide)
  obtain rfl : c = comb := Option.some.inj (hc.symm.trans rfl)
  obtain ⟨⟨ho, hstate⟩, hnested⟩ := hpair (by decide)
  obtain ⟨ho', hstate'⟩ := hnested (by decide) (by decide)
  exact ⟨hshape visit rfl, ho, hstate, ho', hstate', hodd 1 (by decide), heven 2 (by decide),
    hbeyond (by simp) 5 (by decide)⟩

end Michelson

import Michelson.Proofs.NestingLimit

namespace Michelson

def Instr.dip (n : Nat) (body : List Instr) : Instr :=
  ⟨.dip, [.ofInt n, .code body]⟩

/-- What is left when these slots are put back on others, unless all is lost. -/
def putBack (top out : List Ty) : List Ty :=
  if isDiverged out then [.universal] else top ++ out

/-- A stack without `universal` slots is not lost. -/
theorem isDiverged_of_not_mem {slots : List Ty} (h : .universal ∉ slots) :
    isDiverged slots = false := by
  refine Bool.eq_false_iff.mpr fun hd => h ?_
  simp [isDiverged_iff.mp hd]

theorem isDiverged_append {top : List Ty} (h : .universal ∉ top) (out : List Ty)
    (hout : isDiverged out = false) : isDiverged (top ++ out) = false := by
  cases top with
  | nil => exact hout
  | cons t top =>
    refine Bool.eq_false_iff.mpr fun hd => ?_
    rw [isDiverged_iff, List.cons_append, List.cons.injEq] at hd
    apply h
    simp [hd.1]

/-- Putting slots back does not change whether all is lost, if they are reached themselves. -/
theorem isDiverged_putBack {top : List Ty} (h : .universal ∉ top) (out : List Ty) :
    isDiverged (putBack top out) = isDiverged out := by
  unfold putBack
  cases hout : isDiverged out with
  | true => rfl
  | false => exact isDiverged_append h out hout

/-- Slots may be put back in one go or one part after the other. -/
theorem putBack_append {top : List Ty} (h : .universal ∉ top) (higher out : List Ty) :
    putBack (higher ++ top) out = putBack higher (putBack top out) := by
  rw [putBack, putBack, isDiverged_putBack h]
  cases hout : isDiverged out with
  | true => rfl
  | false => simp [putBack, hout]

namespace Rule

/-- One rule after another, unless all is lost by then. -/
def andThen (first second : Rule) : Rule := fun slots => do
  let mid ← first slots
  if isDiverged mid then .ok mid else second mid

/-- It does not matter how three rules in a row are grouped. -/
theorem andThen_assoc (p q r : Rule) : (p.andThen q).andThen r = p.andThen (q.andThen r) := by
  funext slots
  unfold andThen
  cases p slots with
  | error e => rfl
  | ok mid =>
    simp only [Outcome.ok_bind]
    cases hmid : isDiverged mid with
    | true => simp [hmid]
    | false => rfl

theorem andThen_of_ok {p q : Rule} {slots mid : List Ty} (h : p slots = .ok mid)
    (hlive : isDiverged mid = false) : p.andThen q slots = q mid := by
  simp [andThen, h, hlive]

section

variable {n : Nat} {slots : List Ty}

theorem dip_of_lt (h : slots.length < n) (body : Rule) :
    dip n body slots = .refuse (.stackLength (some .dip) n slots.length) := by
  rw [dip, require_of_lt .dip h]
  rfl

/-- With enough slots, the body works on what is below them and they are put back. -/
theorem dip_of_le (h : n ≤ slots.length) (body : Rule) :
    dip n body slots = body (slots.drop n) >>= fun out => .ok (putBack (slots.take n) out) := by
  rw [dip, require_of_le .dip h]
  rfl

theorem dip_congr {p q : Rule} (h : p (slots.drop n) = q (slots.drop n)) :
    dip n p slots = dip n q slots := by
  rw [dip, dip, h]

/-- A body that is refused for its depth is so in a `DIP`. -/
theorem isCut_dip {limit : Nat} {body : Rule} (hn : n ≤ slots.length)
    (h : IsCut limit (body (slots.drop n))) : IsCut limit (dip n body slots) := by
  obtain ⟨op, hop⟩ := h
  rw [dip_of_le hn, hop]
  exact ⟨op, rfl⟩

theorem le_of_dip {body : Rule} {out : List Ty} (h : dip n body slots = .ok out) :
    n ≤ slots.length ∧ ∃ left, body (slots.drop n) = .ok left := by
  by_cases hn : slots.length < n
  · rw [dip_of_lt hn] at h
    cases h
  · rw [dip_of_le (Nat.not_lt.mp hn)] at h
    obtain ⟨left, hleft, -⟩ := Outcome.bind_eq_ok.mp h
    exact ⟨Nat.not_lt.mp hn, left, hleft⟩

/-- With so many slots hidden, the body works on the others. -/
theorem dip_append (top rest : List Ty) (body : Rule) :
    dip top.length body (top ++ rest) = body rest >>= fun out => .ok (putBack top out) := by
  rw [dip_of_le (by simp), List.drop_left, List.take_left]

theorem dip_one_of_ok {body : Rule} {rest out : List Ty} (h : body rest = .ok out)
    (hlive : isDiverged out = false) (x : Ty) : dip 1 body (x :: rest) = .ok (x :: out) := by
  have hdip := dip_append [x] rest body
  simpa [h, putBack, hlive] using hdip

end

variable {slots : List Ty} (hs : .universal ∉ slots)

include hs

/-- The slots that are hidden again for the second body are those that were put back after the first. -/
theorem dip_andThen (n : Nat) (p q : Rule) :
    dip n (p.andThen q) slots = (dip n p).andThen (dip n q) slots := by
  unfold andThen
  by_cases hn : slots.length < n
  · rw [dip_of_lt hn, dip_of_lt hn]
    rfl
  · have hle := Nat.not_lt.mp hn
    have htop : .universal ∉ slots.take n := fun h => hs (List.mem_of_mem_take h)
    have hlength : (slots.take n).length = n := List.length_take_of_le hle
    rw [dip_of_le hle, dip_of_le hle]
    cases p (slots.drop n) with
    | error e => rfl
    | ok mid =>
      simp only [Outcome.ok_bind, isDiverged_putBack htop]
      cases hmid : isDiverged mid with
      | true => rfl
      | false =>
        -- the second body is hidden from just the slots that were put back
        have hback : putBack (slots.take n) mid = slots.take n ++ mid := by simp [putBack, hmid]
        have hdip := dip_append (slots.take n) mid q
        rw [hlength] at hdip
        simp only [Bool.false_eq_true, if_false, hback, hdip]

/-- A `DIP` in a `DIP` hides the slots of both. -/
theorem dip_dip {n m : Nat} (hlength : n + m ≤ slots.length) (body : Rule) :
    dip n (dip m body) slots = dip (n + m) body slots := by
  have hinner : m ≤ (slots.drop n).length := by
    rw [List.length_drop]
    omega
  have htop : .universal ∉ (slots.drop n).take m :=
    fun h => hs (List.mem_of_mem_drop (List.mem_of_mem_take h))
  rw [dip_of_le (by omega), dip_of_le hinner, dip_of_le hlength, List.drop_drop, List.take_add]
  simp only [putBack_append htop, bind_assoc, Outcome.ok_bind]

end Rule

section

variable (ctx : Context)

theorem rule_checkCode_singleton (i : Instr) : (checkCode [i]).rule ctx = i.check.rule ctx := by
  funext slots
  rw [rule_checkCode_cons]
  cases i.check.rule ctx slots with
  | error e => rfl
  | ok out =>
    simp only [Outcome.ok_bind, rule_checkCode_nil]
    split <;> rfl

/-- Code follows the rules of its parts in a row. A stack that is lost from the start is left out: it does not keep the
first instruction from being checked, whichever part that is in. -/
theorem rule_checkCode_append (a b : List Instr) {slots : List Ty} (h : isDiverged slots = false) :
    (checkCode (a ++ b)).rule ctx slots =
      ((checkCode a).rule ctx).andThen ((checkCode b).rule ctx) slots := by
  induction a generalizing slots with
  | nil => simp [Rule.andThen, rule_checkCode_nil, h]
  | cons i a ih =>
    have hcons (rest : List Instr) : (checkCode (i :: rest)).rule ctx =
        (i.check.rule ctx).andThen ((checkCode rest).rule ctx) := by
      funext slots
      exact rule_checkCode_cons i rest ctx slots
    rw [List.cons_append, hcons, hcons, Rule.andThen_assoc]
    refine Outcome.bind_congr fun mid _ => ?_
    cases hmid : isDiverged mid with
    | true => rfl
    | false => exact ih hmid

theorem rule_check_dip {n : Nat} (hn : n ≤ Size.max) (body : List Instr) :
    (Instr.dip n body).check.rule ctx =
      Rule.dip n (Body.rule ⟨body, checkCode body⟩ .dip ctx) := by
  have hdip : IsDip [.ofInt n, .code body] n body := .inl ⟨rfl, hn⟩
  funext slots
  rw [Instr.dip, Instr.rule_check, hdip.count, Rule.ofOpcode, hdip.dipOperands]
  rfl

theorem rule_checkCode_two (i j : Instr) :
    (checkCode [i, j]).rule ctx = (i.check.rule ctx).andThen (j.check.rule ctx) := by
  funext slots
  rw [rule_checkCode_cons, rule_checkCode_singleton]
  rfl

/-- The rule of a single instruction below the top slot. -/
theorem rule_check_dip_one (h : ctx.HasRoom) (i : Instr) :
    (Instr.dip 1 [i]).check.rule ctx = Rule.dip 1 (i.check.rule ctx.deeper) := by
  have hdip := rule_check_dip ctx (n := 1) (by decide) [i]
  rwa [Body.rule_of_hasRoom _ _ h, rule_checkCode_singleton] at hdip

/-- A scope for both parts, or one for each. -/
theorem Body.rule_append (a b : List Instr) (op : Opcode) {slots : List Ty}
    (h : isDiverged slots = false) :
    Body.rule ⟨a ++ b, checkCode (a ++ b)⟩ op ctx slots =
      (Body.rule ⟨a, checkCode a⟩ op ctx).andThen (Body.rule ⟨b, checkCode b⟩ op ctx) slots := by
  simp only [Body.rule, Rule.andThen, Check.rule_inScope _ _ (checkCode_confined _)]
  split
  · exact rule_checkCode_append ctx.deeper a b h
  · rfl

variable {slots : List Ty} (hs : .universal ∉ slots)

include hs

theorem isDiverged_drop (n : Nat) : isDiverged (slots.drop n) = false :=
  isDiverged_of_not_mem fun h => hs (List.mem_of_mem_drop h)

/-- Two bodies below the same slots may share one `DIP`. -/
theorem rule_dip_append {n : Nat} (hn : n ≤ Size.max) (a b : List Instr) :
    (checkCode [.dip n (a ++ b)]).rule ctx slots =
      (checkCode [.dip n a, .dip n b]).rule ctx slots := by
  have hbody := Body.rule_append ctx a b .dip (isDiverged_drop hs n)
  calc (checkCode [.dip n (a ++ b)]).rule ctx slots
    _ = Rule.dip n (Body.rule ⟨a ++ b, checkCode (a ++ b)⟩ .dip ctx) slots := by
      rw [rule_checkCode_singleton, rule_check_dip ctx hn]
    _ = Rule.dip n ((Body.rule ⟨a, checkCode a⟩ .dip ctx).andThen
          (Body.rule ⟨b, checkCode b⟩ .dip ctx)) slots := by
      simp only [Rule.dip, hbody]
    _ = (Rule.dip n (Body.rule ⟨a, checkCode a⟩ .dip ctx)).andThen
          (Rule.dip n (Body.rule ⟨b, checkCode b⟩ .dip ctx)) slots := Rule.dip_andThen hs n _ _
    _ = (checkCode [.dip n a, .dip n b]).rule ctx slots := by
      rw [rule_checkCode_cons, rule_check_dip ctx hn, Rule.andThen]
      refine Outcome.bind_congr fun mid _ => ?_
      rw [rule_checkCode_singleton, rule_check_dip ctx hn]

/-- Where there are slots for both to hide, a `DIP` in a `DIP` is refused for its depth or does what one `DIP` does. -/
theorem rule_dip_dip {n m : Nat} (hnm : n + m ≤ Size.max) (hlength : n + m ≤ slots.length)
    (a : List Instr) :
    IsCut ctx.config.maxNestingDepth ((checkCode [.dip n [.dip m a]]).rule ctx slots) ∨
      (checkCode [.dip n [.dip m a]]).rule ctx slots =
        (checkCode [.dip (n + m) a]).rule ctx slots := by
  have hn : n ≤ Size.max := by omega
  have hm : m ≤ Size.max := by omega
  simp only [rule_checkCode_singleton, rule_check_dip ctx hn, rule_check_dip ctx hnm]
  by_cases hr : ctx.HasRoom
  · rw [Body.rule_of_hasRoom _ _ hr, Body.rule_of_hasRoom _ _ hr, rule_checkCode_singleton,
      rule_check_dip ctx.deeper hm, Rule.dip_dip hs hlength]
    -- the body is two scopes in on one side and one scope in on the other
    rcases Body.rule_cut_or_same a .dip ctx.deeper (slots.drop (n + m)) with hcut | hsame
    · exact .inl (Rule.isCut_dip hlength hcut)
    · exact .inr (Rule.dip_congr hsame)
  · exact .inl (Rule.isCut_dip (by omega) (Body.isCut_of_not_hasRoom _ _ hr _))

end

/-- A `DIP` in a `DIP` does not succeed without slots for both to hide. -/
theorem length_le_of_rule_dip_dip {ctx : Context} {slots out : List Ty} {n m : Nat}
    (hnm : n + m ≤ Size.max) {a : List Instr}
    (h : (checkCode [.dip n [.dip m a]]).rule ctx slots = .ok out) : n + m ≤ slots.length := by
  rw [rule_checkCode_singleton, rule_check_dip ctx (by omega)] at h
  obtain ⟨hn, left, hleft⟩ := Rule.le_of_dip h
  by_cases hr : ctx.HasRoom
  · rw [Body.rule_of_hasRoom _ _ hr, rule_checkCode_singleton, rule_check_dip ctx.deeper (by omega)]
      at hleft
    obtain ⟨hm, -⟩ := Rule.le_of_dip hleft
    rw [List.length_drop] at hm
    omega
  · obtain ⟨op, hcut⟩ := Body.isCut_of_not_hasRoom [.dip m a] .dip hr (slots.drop n)
    rw [hcut] at hleft
    cases hleft

theorem length_le_of_rule_dip {ctx : Context} {slots out : List Ty} {n : Nat} (hn : n ≤ Size.max)
    {a : List Instr} (h : (checkCode [.dip n a]).rule ctx slots = .ok out) : n ≤ slots.length := by
  rw [rule_checkCode_singleton, rule_check_dip ctx hn] at h
  exact (Rule.le_of_dip h).1

/-- On a stack without `universal` slots, two bodies in a row below some slots come to the same as one after the other
below them. A `DIP` in a `DIP` that is not refused for its depth comes to the same as one that hides the slots of both;
only where there are too few of these do the errors differ. -/
theorem dip_composes (ctx : Context) (frames : List (List Ty)) (slots : List Ty)
    (hs : .universal ∉ slots) (n m : Nat) (hnm : n + m ≤ Size.max) (a b : List Instr) :
    let run (code : List Instr) := (checkCode code).run ⟨ctx, ⟨slots, frames⟩⟩
    let joined := run [.dip n (a ++ b)]
    let split := run [.dip n a, .dip n b]
    let nested := run [.dip n [.dip m a]]
    let flat := run [.dip (n + m) a]
    (joined.outcome = split.outcome ∧ (joined.outcome = .ok () → joined.state = split.state)) ∧
    (¬IsCut ctx.config.maxNestingDepth nested.outcome →
      (nested.outcome = .ok () ↔ flat.outcome = .ok ()) ∧
      (nested.outcome = .ok () → nested.state = flat.state) ∧
      (n + m ≤ slots.length → nested.outcome = flat.outcome)) := by
  intro run joined split nested flat
  have hn : n ≤ Size.max := by omega
  have hnested := checkCode_confined [.dip n [.dip m a]]
  have hflat := checkCode_confined [.dip (n + m) a]
  refine ⟨?_, fun hcut => ?_⟩
  · exact (checkCode_confined _).run_congr (checkCode_confined _) (rule_dip_append ctx hs hn a b)
      frames
  · have hsame (hlength : n + m ≤ slots.length) :
        nested.outcome = flat.outcome ∧ (nested.outcome = .ok () → nested.state = flat.state) := by
      refine hnested.run_congr hflat ?_ frames
      apply (rule_dip_dip ctx hs hnm hlength a).resolve_left
      rwa [hnested.isCut_rule_iff frames]
    refine ⟨⟨fun hok => ?_, fun hok => ?_⟩, fun hok => ?_, fun hlength => (hsame hlength).1⟩
    · obtain ⟨out, hout⟩ := hnested.outcome_eq_ok_iff.mp hok
      exact (hsame (length_le_of_rule_dip_dip hnm hout)).1 ▸ hok
    · obtain ⟨out, hout⟩ := hflat.outcome_eq_ok_iff.mp hok
      exact (hsame (length_le_of_rule_dip hnm hout)).1 ▸ hok
    · obtain ⟨out, hout⟩ := hnested.outcome_eq_ok_iff.mp hok
      exact (hsame (length_le_of_rule_dip_dip hnm hout)).2 hok

/-- Below two slots, an addition and then the end of it all, each in a `DIP` of its own; and the addition alone, in one
`DIP` instead of two. -/
theorem dip_composes_add :
    let add : List Instr := [⟨.add, []⟩]
    let fail : List Instr := [⟨.failwith, []⟩]
    let run (code : List Instr) :=
      (checkCode code).run ⟨.ofConfig {}, ⟨[.unit, .bool, .int, .nat, .string], [[.mutez]]⟩⟩
    (run [.dip 2 add, .dip 2 fail]).outcome = .ok () ∧
      (run [.dip 2 add, .dip 2 fail]).state = ⟨.ofConfig {}, ⟨[.universal], [[.mutez]]⟩⟩ ∧
      (run [.dip 2 add]).outcome = .ok () ∧
      (run [.dip 2 add]).state = ⟨.ofConfig {}, ⟨[.unit, .bool, .int, .string], [[.mutez]]⟩⟩ := by
  intro add fail run
  have hjoined : (run [.dip 2 (add ++ fail)]).outcome = .ok () := by
    simp only [run, add, fail]
    cbv
  have hlost : (run [.dip 2 (add ++ fail)]).state = ⟨.ofConfig {}, ⟨[.universal], [[.mutez]]⟩⟩ := by
    simp only [run, add, fail]
    cbv
  have hnested : (run [.dip 1 [.dip 1 add]]).outcome = .ok () := by
    simp only [run, add]
    cbv
  have hadded : (run [.dip 1 [.dip 1 add]]).state =
      ⟨.ofConfig {}, ⟨[.unit, .bool, .int, .string], [[.mutez]]⟩⟩ := by
    simp only [run, add]
    cbv
  obtain ⟨⟨hsplit, hstate⟩, -⟩ := dip_composes (.ofConfig {}) [[.mutez]]
    [.unit, .bool, .int, .nat, .string] (by simp) 2 0 (by decide) add fail
  obtain ⟨-, hflat⟩ := dip_composes (.ofConfig {}) [[.mutez]]
    [.unit, .bool, .int, .nat, .string] (by simp) 1 1 (by decide) add fail
  obtain ⟨hiff, hsame, -⟩ := hflat (by
    rintro ⟨op, hcut⟩
    cases hnested.symm.trans hcut)
  exact ⟨hsplit ▸ hjoined, (hstate hjoined).symm.trans hlost, hiff.mp hnested,
    (hsame hnested).symm.trans hadded⟩

end Michelson

import Michelson.Proofs.InPlace

namespace Michelson

open Promotion (lookup lookup_numbers lookup_eq_none)

namespace Action

variable {op : Opcode} {slots : List Ty}

/-- Only the operands at hand matter. -/
theorem two_congr {f f' : Ty → Ty → Verdict}
    (h : ∀ x y rest, slots = x :: y :: rest → f x y = f' x y) :
    (two f).rule op slots = (two f').rule op slots := by
  match slots with
  | [] | [_] => rfl
  | x :: y :: rest => rw [rule_two_cons, rule_two_cons, h x y rest rfl]

theorem three_congr {f f' : Ty → Ty → Ty → Verdict}
    (h : ∀ x y z rest, slots = x :: y :: z :: rest → f x y z = f' x y z) :
    (three f).rule op slots = (three f').rule op slots := by
  match slots with
  | [] | [_] | [_, _] => rfl
  | x :: y :: z :: rest => rw [rule_three_cons, rule_three_cons, h x y z rest rfl]

/-- Two ways to overload an operation that agree on the operands at hand. -/
theorem binary_congr {accepted accepted' : Ty → Ty → List Ty} {result result' : Ty → Ty → Option Ty}
    (h : ∀ x y rest, slots = x :: y :: rest →
      result x y = result' x y ∧ (result' x y = none → accepted x y = accepted' x y)) :
    (binary op accepted result).rule op slots = (binary op accepted' result').rule op slots := by
  refine two_congr fun x y rest hs => ?_
  obtain ⟨hr, ha⟩ := h x y rest hs
  rw [hr]
  cases hx : result' x y with
  | some t => rfl
  | none => rw [ha hx]

theorem unary_congr {accepted accepted' : List Ty} {result result' : Ty → Option Ty}
    (h : ∀ x rest, slots = x :: rest →
      result x = result' x ∧ (result' x = none → accepted = accepted')) :
    (unary op accepted result).rule op slots = (unary op accepted' result').rule op slots := by
  match slots with
  | [] => rfl
  | x :: rest =>
    obtain ⟨hr, ha⟩ := h x rest rfl
    rw [unary, unary, rule_one_cons, rule_one_cons, hr]
    cases hx : result' x with
    | some t => rfl
    | none => rw [ha hx]

end Action

namespace Edit

variable {α : Type}

/-- Work that depends on the slots at hand. -/
theorem visible_bind_eq {f : List Ty → Edit Unit} {rule : Rule}
    (h : ∀ slots, ∃ rule' : Rule, f slots = ofRule rule' ∧ rule' slots = rule slots) :
    (visible >>= f) = ofRule rule := by
  refine ext fun slots frames => ?_
  obtain ⟨rule', hf, hr⟩ := h slots
  rw [run_bind_of_ok (run_visible slots frames), hf, run_ofRule, run_ofRule, hr]

section

variable {op : Opcode} {accepted : Ty → Ty → List Ty} {slots : List Ty}

/-- Work on two operands, handed on where the overloads that are left out do not apply. -/
theorem binary_follows (own : List Ty) {result : Ty → Ty → Option Ty}
    (h : ∀ x y rest, slots = x :: y :: rest → result x y = lookup x y op.promotions ∧
      (lookup x y op.promotions = none → own = accepted x y)) :
    ∃ rule : Rule, binary op own result = ofRule rule ∧
      rule slots = (Action.overloaded op accepted).rule op slots :=
  ⟨_, binary_eq op own result, Action.binary_congr h⟩

end

/-- `ADD` hands amounts to their own rule and all else to that of numbers; together these take what is listed. -/
theorem add_eq : Overloaded.add = ofRule
    ((Action.overloaded .add fun _ _ => [.int, .nat, .mutez]).rule .add) := by
  refine visible_bind_eq fun slots => ?_
  split
  · refine binary_follows _ ?_
    rintro _ _ _ ⟨rfl, rfl⟩
    simp [Opcode.promotions, lookup]
  · rename_i h
    refine binary_follows _ ?_
    rintro x y rest rfl
    have hxy : ¬(x = .mutez ∧ y = .mutez) := by
      rintro ⟨rfl, rfl⟩
      exact h rest rfl
    simp [Opcode.promotions, lookup, lookup_numbers, hxy]

theorem sub_eq : Overloaded.sub = ofRule
    ((Action.overloaded .sub fun _ _ => [.int, .nat, .timestamp]).rule .sub) := by
  refine visible_bind_eq fun slots => ?_
  split
  · refine binary_follows _ ?_
    rintro _ _ _ ⟨rfl, rfl⟩
    simp [Opcode.promotions, lookup]
  · rename_i h
    refine binary_follows _ ?_
    rintro x y rest rfl
    have hxy : ¬(x = .timestamp ∧ y = .timestamp) := by
      rintro ⟨rfl, rfl⟩
      exact h rest rfl
    simp [Opcode.promotions, lookup, lookup_numbers, hxy]

theorem subMutez_eq : Amount.sub = ofRule
    ((Action.overloaded .subMutez fun _ _ => [.mutez]).rule .subMutez) := by
  refine (binary_eq _ _ _).trans (congrArg ofRule (funext fun slots => Action.binary_congr ?_))
  rintro x y rest rfl
  simp [Opcode.promotions, lookup]

/-- `MUL` goes to the rule for amounts if either operand is one, and is then refused in the words of that rule. -/
theorem mul_eq : Overloaded.mul = ofRule
    ((Action.overloaded .mul fun x y =>
      if x = .mutez ∨ y = .mutez then [.mutez, .nat] else [.int, .nat, .mutez]).rule .mul) := by
  refine visible_bind_eq fun slots => ?_
  split
  · refine binary_follows _ ?_
    rintro x _ _ ⟨rfl, rfl⟩
    cases ‹Ty› <;> simp [Opcode.promotions, lookup, lookup_numbers, Number.widen]
  · refine binary_follows _ ?_
    rintro _ y _ ⟨rfl, rfl⟩
    cases ‹Ty› <;> simp [Opcode.promotions, lookup, lookup_numbers, Number.widen]
  · rename_i h h'
    refine binary_follows _ ?_
    rintro x y rest rfl
    have hx : x ≠ .mutez := fun hx => h' y rest (by rw [hx])
    have hy : y ≠ .mutez := fun hy => h x rest (by rw [hy])
    simp [Opcode.promotions, lookup, lookup_numbers, hx, hy]

/-- `EDIV` goes to the rule for amounts if the top operand is one, and only then. -/
theorem ediv_eq : Overloaded.ediv = ofRule
    ((Action.overloaded .ediv fun x _ =>
      if x = .mutez then [.mutez, .nat] else [.int, .nat, .mutez]).rule .ediv) := by
  refine visible_bind_eq fun slots => ?_
  split
  · refine binary_follows _ ?_
    rintro _ y _ ⟨rfl, rfl⟩
    cases y <;> simp [Opcode.promotions, lookup, lookup_numbers, Number.widen]
  · rename_i h
    refine binary_follows _ ?_
    rintro x y rest rfl
    have hx : x ≠ .mutez := fun hx => h (y :: rest) (by rw [hx])
    simp [Opcode.promotions, lookup, lookup_numbers, hx]

/-- The connectives of truth values and of numbers. -/
theorem connect_eq (op : Opcode) (work : Edit Unit) (accepted : List Ty) (result : Ty → Ty → Option Ty)
    (hwork : work = binary op accepted result)
    (hbool : ∀ x y, x = .bool ∧ y = .bool → lookup x y op.promotions = some .bool)
    (hnot : ∀ x y, ¬(x = .bool ∧ y = .bool) → result x y = lookup x y op.promotions) :
    (visible >>= fun
      | .bool :: .bool :: _ => Truth.connect op
      | _ => work) = ofRule ((Action.overloaded op fun _ _ => accepted).rule op) := by
  refine visible_bind_eq fun slots => ?_
  split
  · refine binary_follows _ ?_
    rintro _ _ _ ⟨rfl, rfl⟩
    simp [hbool]
  · rename_i h
    rw [hwork]
    refine binary_follows _ ?_
    rintro x y rest rfl
    have hxy : ¬(x = .bool ∧ y = .bool) := by
      rintro ⟨rfl, rfl⟩
      exact h rest rfl
    exact ⟨hnot x y hxy, fun _ => rfl⟩

theorem or_eq : Overloaded.or = ofRule
    ((Action.overloaded .or fun _ _ => [.nat, .bool]).rule .or) := by
  refine connect_eq .or _ _ _ rfl ?_ ?_ <;> simp +contextual [Opcode.promotions, lookup]

theorem xor_eq : Overloaded.xor = ofRule
    ((Action.overloaded .xor fun _ _ => [.nat, .bool]).rule .xor) := by
  refine connect_eq .xor _ _ _ rfl ?_ ?_ <;> simp +contextual [Opcode.promotions, lookup]

/-- `AND` takes two truth values, two natural numbers, or an integer and a natural number below it. -/
theorem and_eq : Overloaded.and = ofRule
    ((Action.overloaded .and fun _ _ => [.int, .nat, .bool]).rule .and) := by
  refine connect_eq .and _ _ _ rfl ?_ ?_
  · simp +contextual [Opcode.promotions, lookup]
  · intro x y hxy
    split <;> grind [Opcode.promotions, lookup]

theorem not_eq : Overloaded.not = ofRule (Action.not.rule .not) := by
  refine visible_bind_eq fun slots => ?_
  split
  · refine ⟨_, unary_eq _ _ _, Action.unary_congr ?_⟩
    rintro _ _ ⟨rfl, rfl⟩
    simp
  · rename_i h
    refine ⟨_, unary_eq _ _ _, Action.unary_congr ?_⟩
    rintro x rest rfl
    have hx : x ≠ .bool := fun hx => h rest (by rw [hx])
    simp [hx]

theorem size_eq : Overloaded.size = ofRule (Action.size.rule .size) := by
  refine visible_bind_eq fun slots => ?_
  split
  · refine ⟨_, unary_eq _ _ _, Action.unary_congr ?_⟩
    rintro _ _ ⟨rfl, rfl⟩
    simp
  · refine ⟨_, unary_eq _ _ _, Action.unary_congr ?_⟩
    rintro _ _ ⟨rfl, rfl⟩
    simp
  · rename_i h h'
    refine ⟨_, unary_eq _ _ _, Action.unary_congr ?_⟩
    rintro x rest rfl
    cases x with
    | string => exact absurd rfl (h rest)
    | bytes => exact absurd rfl (h' rest)
    | _ => simp

/-- An error that names the slots on top. -/
theorem refuse_top_eq (n : Nat) (e : List Ty → TypeError) :
    (topTypes n >>= fun found => refuse (e found)) = ofRule fun slots => .refuse (e (slots.take n)) :=
  ext fun slots frames => by simp [run_ofRule]

theorem require_eq_of_lt {op : Opcode} {n : Nat} {slots : List Ty} (h : slots.length < n) (a : Action)
    (ha : a.needed = n) :
    ∃ rule : Rule, require op n = ofRule rule ∧ rule slots = a.rule op slots := by
  refine ⟨fun slots => (Rule.require op n slots).map fun _ => slots, ?_, ?_⟩
  · refine ext fun slots frames => ?_
    rw [run_require, run_ofRule]
    cases Rule.require op n slots <;> rfl
  · dsimp only
    rw [Rule.require_of_lt op h, Action.rule_of_lt op (ha ▸ h), ha]
    rfl

theorem lt_two_of_not_cons {slots : List Ty} (h : ∀ x y rest, slots = x :: y :: rest → False) :
    slots.length < 2 := by
  match slots with
  | [] | [_] => simp
  | x :: y :: rest => exact (h x y rest rfl).elim

/-- `CONCAT` is refused by the dispatcher itself unless both operands are strings or both are bytes. -/
theorem concat_eq : Overloaded.concat = ofRule
    ((Action.overloaded .concat fun _ _ => [.string, .bytes]).rule .concat) := by
  refine visible_bind_eq fun slots => ?_
  split
  · refine binary_follows _ ?_
    rintro _ _ _ ⟨rfl, rfl⟩
    simp [Opcode.promotions, lookup]
  · refine binary_follows _ ?_
    rintro _ _ _ ⟨rfl, rfl⟩
    simp [Opcode.promotions, lookup]
  · rename_i x y rest hstring hbytes
    refine ⟨_, refuse_top_eq 2 (.operand .concat [.string, .bytes]), ?_⟩
    have hnone : lookup x y (Opcode.promotions .concat) = none :=
      lookup_eq_none (by simp_all [Opcode.promotions])
    rw [Action.overloaded, Action.binary, Action.rule_two_cons, hnone]
    rfl
  · rename_i h
    exact require_eq_of_lt (lt_two_of_not_cons h) _ rfl

theorem text_slice_eq (t : Ty) : Text.slice t = ofRule
    ((Action.three fun x y z => if [x, y, z] = [.nat, .nat, t] then .ok [.option t]
      else .refuse (.stackTop .slice [.nat, .nat, t] [x, y, z])).rule .slice) :=
  require_three_eq fun x y z rest frames => by simp

/-- `SLICE` is refused by the dispatcher itself unless it finds two numbers and a text. -/
theorem slice_eq : Overloaded.slice = ofRule (Action.slice.rule .slice) := by
  refine visible_bind_eq fun slots => ?_
  split
  · refine ⟨_, text_slice_eq .string, ?_⟩
    rw [Action.slice, Action.rule_three_cons, Action.rule_three_cons, if_pos rfl]
  · refine ⟨_, text_slice_eq .bytes, ?_⟩
    rw [Action.slice, Action.rule_three_cons, Action.rule_three_cons, if_pos rfl]
  · rename_i x y z rest hstring hbytes
    refine ⟨_, refuse_top_eq 3 (.operand .slice [.string, .bytes]), ?_⟩
    rw [Action.slice, Action.rule_three_cons]
    split
    · exact absurd rfl (hstring rfl rfl)
    · exact absurd rfl (hbytes rfl rfl)
    · rfl
  · rename_i h
    refine require_eq_of_lt ?_ _ rfl
    match slots with
    | [] | [_] | [_, _] => simp
    | x :: y :: z :: rest => exact absurd rfl (h x y z rest)

theorem options_compare_eq : Options.compare = ofRule
    ((Action.two fun x y =>
      match x, y with
      | .option l, .option r =>
        if l.equals r then .ok [.int]
        else .refuse (.stackTop .compare [.option l, .option l] [x, y])
      | .option l, _ => .refuse (.stackTop .compare [.option l, .option l] [x, y])
      | _, _ => .refuse (.stackTop .compare [.option (.var "a"), .option (.var "a")] [x, y])).rule
        .compare) := by
  refine require_two_eq fun x y rest frames => ?_
  cases x with
  | option l => cases y <;> simp
  | _ => simp

/-- Operands of one comparable type. -/
theorem compare_follows (own : List Ty) {result : Ty → Ty → Option Ty} {slots : List Ty} {t : Ty}
    (ht : t ∈ [.int, .nat, .string, .bytes, .address, .mutez, .timestamp])
    (hs : ∃ rest, slots = t :: t :: rest) (hr : result t t = some .int) :
    ∃ rule : Rule, binary .compare own result = ofRule rule ∧
      rule slots = Action.compare.rule .compare slots := by
  obtain ⟨rest, rfl⟩ := hs
  refine ⟨_, binary_eq .compare own result, ?_⟩
  rw [Action.binary, Action.compare, Action.rule_two_cons, Action.rule_two_cons, hr]
  simp only [List.mem_cons, List.not_mem_nil, or_false] at ht
  rcases ht with rfl | rfl | rfl | rfl | rfl | rfl | rfl <;>
    simp [Opcode.promotions, lookup, Action.resultFor]

/-- `COMPARE` goes to the rule of the type that both operands have, or to that of options. -/
theorem compare_eq : Overloaded.compare = ofRule (Action.compare.rule .compare) := by
  refine visible_bind_eq fun slots => ?_
  split
  case h_7 l r rest =>
    refine ⟨_, options_compare_eq, ?_⟩
    rw [Action.compare, Action.rule_two_cons, Action.rule_two_cons]
  case h_9 x y rest _ _ _ _ _ _ hoption _ =>
    refine ⟨_, refuse_top_eq 2 (.operand .compare _), ?_⟩
    have hnone : lookup x y (Opcode.promotions .compare) = none :=
      lookup_eq_none (by simp_all [Opcode.promotions])
    rw [Action.compare, Action.rule_two_cons]
    split
    · exact (hoption _ _ rfl rfl).elim
    · rw [hnone]
      rfl
  case h_10 h => exact require_eq_of_lt (lt_two_of_not_cons h) _ rfl
  all_goals exact compare_follows _ (by simp) ⟨_, rfl⟩ (by simp)

theorem memSet_eq : Collection.memSet = ofRule
    ((Action.two fun x y =>
      match y with
      | .set t => if x.equals t then .ok [.bool] else .refuse (.setElement .mem x y)
      | _ => .refuse (.stackTop .mem [.var "a", .set (.var "a")] [x, y])).rule .mem) := by
  refine require_two_eq fun x y rest frames => ?_
  cases y <;> simp

theorem memMap_eq : Collection.memMap = ofRule
    ((Action.two fun x y =>
      match y with
      | .map k _ | .bigMap k _ => if x.equals k then .ok [.bool] else .refuse (.mapKey .mem x y)
      | _ => .refuse (.operand .mem [Collection.anyMap, Collection.anyBigMap] [x, y])).rule .mem) := by
  refine require_two_eq fun x y rest frames => ?_
  cases y with
  | map k v | bigMap k v =>
    by_cases hk : x.equals k <;>
      simp [Collection.valueAtKey, Collection.entry?, hk, Outcome.refuse]
  | _ => simp [Collection.valueAtKey, Collection.entry?, Outcome.refuse]

theorem mem_eq : Overloaded.mem = ofRule (Action.mem.rule .mem) := by
  refine visible_bind_eq fun slots => ?_
  split
  · refine ⟨_, memSet_eq, Action.two_congr ?_⟩
    rintro _ _ _ ⟨rfl, rfl⟩
    rfl
  · rename_i h
    refine ⟨_, memMap_eq, Action.two_congr ?_⟩
    rintro x y rest rfl
    cases y with
    | set t => exact absurd rfl (h x t rest)
    | _ => rfl

theorem updateSet_eq : Collection.updateSet = ofRule
    ((Action.three fun x y z =>
      match z with
      | .set t =>
        if !x.equals t then .refuse (.setElement .update x z)
        else if y = .bool then .ok [z]
        else .refuse (.stackTop .update [t, .bool, z] [x, y, z])
      | _ => .refuse (.operand .update
          [.set (.var "a"), Collection.anyMap, Collection.anyBigMap] [x, y, z])).rule .update) := by
  refine require_three_eq fun x y z rest frames => ?_
  cases z with
  | set t => by_cases ht : x.equals t <;> by_cases hy : y = .bool <;> simp [ht, hy]
  | _ => simp [Collection.refuseUpdate]

theorem updateMap_eq : Collection.updateMap = ofRule
    ((Action.three fun x y z =>
      match z with
      | .map k v | .bigMap k v =>
        if !x.equals k then .refuse (.mapKey .update x z)
        else if Collection.isValueOf v y then .ok [z]
        else .refuse (.mapValue .update y z)
      | _ => .refuse (.operand .update
          [.set (.var "a"), Collection.anyMap, Collection.anyBigMap] [x, y, z])).rule .update) := by
  refine require_three_eq fun x y z rest frames => ?_
  cases z with
  | map k v | bigMap k v => by_cases hk : x.equals k <;> simp [Collection.entry?, hk]
  | _ => simp [Collection.entry?, Collection.refuseUpdate]

/-- `UPDATE` without a number goes by the third slot. -/
theorem update_eq : Overloaded.update = ofRule (Action.update.rule .update) := by
  refine visible_bind_eq fun slots => ?_
  split
  · refine ⟨_, updateSet_eq, Action.three_congr ?_⟩
    rintro _ _ _ _ ⟨rfl, rfl⟩
    rfl
  · rename_i h
    refine ⟨_, updateMap_eq, Action.three_congr ?_⟩
    rintro x y z rest rfl
    cases z with
    | set t => exact absurd rfl (h x y t rest)
    | _ => rfl

/-- The top slot is gone when there turns out to be one too few below it, which takes as many as can be counted. -/
theorem run_dug {n : Nat} (hn : n ≤ Size.max) (slots : List Ty) :
    ∃ left, (left = slots ∨ slots.length = Size.max ∧ left = slots.tail) ∧
      ∀ frames, (Shuffle.dug n).run ⟨slots, frames⟩ =
        settle left frames ((Action.dug n).rule .dug slots) := by
  rcases Nat.lt_or_ge slots.length (Size.succ n) with hs | hs
  · refine ⟨slots, .inl rfl, fun frames => ?_⟩
    rw [Shuffle.dug, run_require_bind_of_lt hs, Action.rule_of_lt .dug hs]
    rfl
  · cases slots with
    | nil => exact absurd hs (by simp [Size.succ, Size.max])
    | cons x rest =>
      have hrun (frames : List (List Ty)) : (Shuffle.dug n).run ⟨x :: rest, frames⟩ =
          (insert n x).run ⟨rest, frames⟩ := run_require_bind_of_le hs _ _
      rw [Action.rule_of_le .dug hs]
      rcases Nat.lt_or_ge rest.length n with hr | hr
      · have hmax : rest.length + 1 = Size.max := by
          simp only [Size.succ, List.length_cons] at hs
          omega
        refine ⟨rest, .inr ⟨hmax, rfl⟩, fun frames => ?_⟩
        rw [hrun, run_insert_of_lt hr]
        simp [Action.dug, List.take_of_length_le (Nat.le_of_lt hr), hr]
      · refine ⟨x :: rest, .inl rfl, fun frames => ?_⟩
        have htake : (rest.take n).length = n := List.length_take_of_le hr
        have hinsert := insertIdx_length (rest.take n) (rest.drop n) x
        rw [List.take_append_drop, htake] at hinsert
        rw [hrun, run_insert hr, hinsert]
        simp [Action.dug, Nat.min_eq_left hr]

/-- Work that does what an instruction does, whatever its arguments turn out to be. -/
def Does (op : Opcode) (m : Edit Unit) (action : Outcome TypeError Action) : Prop :=
  m = ofRule fun slots => action >>= fun a => a.rule op slots

section

variable {op : Opcode} {a : Action} {m : Edit Unit}

theorem does_pure (h : m = ofRule (a.rule op)) : Does op m (return a) := h

/-- A decision on the arguments, made before the stack is looked at. -/
theorem does_bind {x : Outcome TypeError α} {f : α → Edit Unit} {g : α → Outcome TypeError Action}
    (h : ∀ a, Does op (f a) (g a)) : Does op (lift x >>= f) (x >>= g) := by
  cases x with
  | ok a => exact h a
  | error e =>
    refine ext fun slots frames => ?_
    rw [run_bind_of_error (run_lift _ _), run_ofRule]
    rfl

end

/-- An instruction does in place what it does by its rule. -/
theorem flat_eq {op : Opcode} (h : op ≠ .dug) (args : List Operand) :
    flat op args = ofRule (Rule.plain op args) := by
  have type {index : Nat} {f : Ty → Edit Unit} {g : Ty → Outcome TypeError Action}
      (h : ∀ t, Does op (f t) (g t)) :
      Does op (lift (Operand.typeAt op args index) >>= f) (Operand.typeAt op args index >>= g) :=
    does_bind h
  have number {f : Option Nat → Edit Unit} {g : Option Nat → Outcome TypeError Action}
      (h : ∀ n, Does op (f n) (g n)) :
      Does op (lift (Operand.nat? op args) >>= f) (Operand.nat? op args >>= g) :=
    does_bind h
  have optional {f : Option Nat → Edit Unit} {g : Nat → Action} {a : Action}
      (hnone : f none = ofRule (a.rule op)) (hsome : ∀ n, f (some n) = ofRule ((g n).rule op)) :
      Does op (lift (Operand.nat? op args) >>= f)
        (Operand.nat? op args >>= fun n => return n.elim a g) :=
    number fun n => by
      cases n with
      | none => exact hnone
      | some n => exact hsome n
  cases op
  case dug => exact absurd rfl h
  case failwith => exact failWith_eq
  case push => exact type fun t => does_bind fun l => does_pure (pushLiteral_eq t l)
  case drop => exact number fun n => does_pure (drop_eq _)
  case dup => exact number fun n => does_pure (dup_eq _)
  case dig => exact does_bind fun n => does_pure (dig_eq n)
  case swap => exact does_pure swap_eq
  case exec => exact does_pure exec_eq
  case apply => exact does_pure apply_eq
  case comment => exact does_pure (return_eq _)
  case some => exact does_pure (wrap_eq _ _)
  case left | right => exact type fun t => does_pure (wrap_eq _ _)
  case car => exact does_pure car_eq
  case cdr => exact does_pure cdr_eq
  case unpair => exact does_pure unpair_eq
  case pair => exact optional pair_eq pairN_eq
  case get => exact optional getMap_eq getN_eq
  case update => exact optional update_eq updateN_eq
  case none | nil | emptySet => exact type fun t => does_pure (push_eq _ _)
  case emptyMap | emptyBigMap => exact type fun k => type fun v => does_pure (push_eq _ _)
  case cons => exact does_pure cons_eq
  case size => exact does_pure size_eq
  case mem => exact does_pure mem_eq
  case pack => exact does_pure pack_eq
  case unpack | contract => exact type fun t => does_pure (convert_eq _ _ _)
  case concat => exact does_pure concat_eq
  case slice => exact does_pure slice_eq
  case compare => exact does_pure compare_eq
  case add => exact does_pure add_eq
  case sub => exact does_pure sub_eq
  case subMutez => exact does_pure subMutez_eq
  case mul => exact does_pure mul_eq
  case ediv => exact does_pure ediv_eq
  case or => exact does_pure or_eq
  case and => exact does_pure and_eq
  case xor => exact does_pure xor_eq
  case not => exact does_pure not_eq
  case neg | address => exact does_pure (unary_eq _ _ _)
  case eq | neq | lt | gt | le | ge | abs | isnat | int | blake2b | keccak | sha256 | sha512 | sha3 =>
    exact does_pure (convert_eq _ _ _)
  case unit | now | selfAddress | sender | source | amount | balance =>
    exact does_pure (push_eq _ _)
  case transferTokens => exact does_pure transferTokens_eq
  case lambda | dip | ifBool | ifNone | ifLeft | ifCons | loop | iter =>
    refine ext fun slots frames => ?_
    rw [run_ofRule]
    rfl

/-- The work of an instruction comes to what its rule says and touches no frame. Where it is refused it leaves the slots
as they are, but for a `DUG` that has taken the top one off as many as can be counted. -/
theorem run_flat (op : Opcode) (args : List Operand) (slots : List Ty) :
    ∃ left, (left = slots ∨ op = .dug ∧ slots.length = Size.max ∧ left = slots.tail) ∧
      ∀ frames, (flat op args).run ⟨slots, frames⟩ = settle left frames (Rule.plain op args slots) := by
  by_cases hop : op = .dug
  · subst hop
    cases hn : Operand.natAt .dug args 0 with
    | error e =>
      refine ⟨slots, .inl rfl, fun frames => ?_⟩
      simp [flat, Rule.plain, Opcode.action, hn]
    | ok n =>
      obtain ⟨left, hleft, hrun⟩ := run_dug (Operand.natAt_le hn) slots
      refine ⟨left, hleft.imp_right fun h => ⟨rfl, h⟩, fun frames => ?_⟩
      simp [flat, Rule.plain, Opcode.action, hn, hrun]
  · exact ⟨slots, .inl rfl, fun frames => by rw [flat_eq hop, run_ofRule]⟩

end Edit

end Michelson

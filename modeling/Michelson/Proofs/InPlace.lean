import Michelson.Proofs.Rules

namespace Michelson

namespace Outcome

variable {ε α β : Type}

@[simp] theorem map_ok (f : α → β) (a : α) : (Except.ok a : Outcome ε α).map f = .ok (f a) := rfl

@[simp] theorem map_error (f : α → β) (e : Failure ε) : (Except.error e : Outcome ε α).map f = .error e := rfl

@[simp] theorem map_refuse (f : α → β) (e : ε) :
    Except.map f (Outcome.refuse e : Outcome ε α) = Outcome.refuse e := rfl

@[simp] theorem map_ite (p : Prop) [Decidable p] (f : α → β) (o o' : Outcome ε α) :
    Except.map f (if p then o else o') = if p then o.map f else o'.map f := by
  split <;> rfl

end Outcome

section

variable {slots : List Ty} {depth : Nat}

theorem insertIdx_append {top : List Ty} (h : depth ≤ top.length) (t : Ty) (rest : List Ty) :
    (top ++ rest).insertIdx depth t = top.insertIdx depth t ++ rest := by
  induction top generalizing depth with
  | nil =>
    rw [Nat.le_zero.mp h]
    rfl
  | cons u top ih =>
    cases depth with
    | zero => rfl
    | succ depth => simp [ih (Nat.le_of_succ_le_succ h)]

theorem insertIdx_length (top rest : List Ty) (t : Ty) :
    (top ++ rest).insertIdx top.length t = top ++ t :: rest := by
  rw [insertIdx_append (Nat.le_refl _), List.insertIdx_length_self]
  simp

/-- Inserting at a position from the bottom is inserting at a depth. -/
theorem reverse_insertIdx (h : depth ≤ slots.length) (t : Ty) :
    (slots.reverse.insertIdx (slots.length - depth) t).reverse = slots.insertIdx depth t := by
  have htop : (slots.take depth).length = depth := List.length_take_of_le h
  have hrest : (slots.drop depth).reverse.length = slots.length - depth := by simp
  have hinsert := insertIdx_length (slots.take depth) (slots.drop depth) t
  have hreversed := insertIdx_length (slots.drop depth).reverse (slots.take depth).reverse t
  rw [List.take_append_drop, htop] at hinsert
  rw [← List.reverse_append, List.take_append_drop, hrest] at hreversed
  rw [hinsert, hreversed]
  simp

theorem reverse_eraseIdx (h : depth < slots.length) :
    (slots.reverse.eraseIdx (slots.length - 1 - depth)).reverse = slots.eraseIdx depth := by
  have htake : slots.length - (slots.length - 1 - depth) = depth + 1 := by omega
  have hdrop : slots.length - (slots.length - 1 - depth + 1) = depth := by omega
  rw [List.eraseIdx_eq_take_drop_succ, List.eraseIdx_eq_take_drop_succ, List.reverse_append,
    List.take_reverse, List.drop_reverse, htake, hdrop, List.reverse_reverse, List.reverse_reverse]

theorem reverse_set (h : depth < slots.length) (t : Ty) :
    (slots.reverse.set (slots.length - 1 - depth) t).reverse = slots.set depth t := by
  refine List.ext_getElem (by simp) fun i hi _ => ?_
  simp only [List.length_reverse, List.length_set] at hi
  simp only [List.getElem_reverse, List.getElem_set, List.length_set, List.length_reverse]
  have hiff : slots.length - 1 - depth = slots.length - 1 - i ↔ depth = i := by omega
  have hi' : slots.length - 1 - (slots.length - 1 - i) = i := by omega
  simp only [hiff, hi']

@[simp] theorem slotAt_zero {ε : Type} (x : Ty) (rest : List Ty) :
    (slotAt (x :: rest) 0 : Outcome ε Ty) = .ok x := rfl

@[simp] theorem slotAt_one {ε : Type} (x y : Ty) (rest : List Ty) :
    (slotAt (x :: y :: rest) 1 : Outcome ε Ty) = .ok y := rfl

@[simp] theorem slotAt_two {ε : Type} (x y z : Ty) (rest : List Ty) :
    (slotAt (x :: y :: z :: rest) 2 : Outcome ε Ty) = .ok z := rfl

end

namespace Stack

variable {ε : Type} {s : Stack} {depth n : Nat}

theorem require_of_le (h : n ≤ s.length) : s.require n = .ok () :=
  if_neg (Nat.not_lt.mpr h)

theorem require_of_lt (h : s.length < n) : s.require n = .refuse ⟨n, s.length⟩ :=
  if_pos h

theorem position_of_lt (h : depth < s.length) :
    (s.position depth : Outcome ε Nat) = .ok (s.length - 1 - depth) := by
  rw [position, Size.minus_of_le (by omega), Outcome.ok_bind, Size.minus_of_le (by omega)]

/-- Which of the two subtractions fails depends on whether there are slots at all. -/
theorem position_of_ge (h : s.length ≤ depth) :
    (s.position depth : Outcome ε Nat) = .stop (.missingSlot depth s.length) := by
  rw [position]
  generalize Fault.missingSlot depth s.length = fault
  generalize s.length = length at h ⊢
  cases length with
  | zero => rw [Size.minus_of_lt Nat.zero_lt_one]; rfl
  | succ length => rw [Size.minus_of_le (by omega), Outcome.ok_bind, Size.minus_of_lt (by omega)]

theorem items_getElem? (h : depth < s.visible.length) :
    s.items[s.length - 1 - depth]? = some s.visible[depth] := by
  have hdepth : s.visible.length - 1 - (s.visible.length - 1 - depth) = depth := by omega
  rw [length, items, List.getElem?_reverse (by omega), hdepth, List.getElem?_eq_getElem h]

/-- A slot is missing exactly where its position cannot be computed. -/
theorem slot_eq (s : Stack) (depth : Nat) :
    (s.slot depth : Outcome ε Ty) = slotAt s.visible depth := by
  rcases Nat.lt_or_ge depth s.length with h | h
  · rw [slot, position_of_lt h, Outcome.ok_bind, items_getElem? h, slotAt_of_lt h]
  · rw [slot, position_of_ge h, slotAt_of_ge h]
    rfl

/-- A slot is written at its position from the bottom, so at its depth. -/
theorem setSlot_of_lt (h : depth < s.length) (t : Ty) :
    (s.setSlot depth t : Outcome ε Stack) = .ok { s with visible := s.visible.set depth t } := by
  rw [setSlot, position_of_lt h, Outcome.ok_bind, if_pos (by omega), withItems, items, length,
    reverse_set h]
  rfl

theorem insert_of_le (h : depth ≤ s.length) (t : Ty) :
    s.insert depth t = .ok { s with visible := s.visible.insertIdx depth t } := by
  rw [insert, require_of_le h, Outcome.ok_bind, Size.minus_of_le h, Outcome.ok_bind,
    if_pos (by omega), withItems, items, length, reverse_insertIdx h]
  rfl

theorem insert_of_lt (h : s.length < depth) (t : Ty) :
    s.insert depth t = .refuse ⟨depth, s.length⟩ := by
  rw [insert, require_of_lt h]
  rfl

theorem delete_of_lt (h : depth < s.visible.length) :
    s.delete depth = .ok (s.visible[depth], { s with visible := s.visible.eraseIdx depth }) := by
  have hsucc : Size.succ depth ≤ s.length := Nat.le_trans (Nat.min_le_left _ _) h
  rw [delete, require_of_le hsucc, Outcome.ok_bind, position_of_lt h, Outcome.ok_bind, items_getElem? h,
    withItems, items, length, reverse_eraseIdx h]
  rfl

/-- The test for one slot more passes where no more can be counted, and then there is no position. -/
theorem delete_of_ge (h : s.length ≤ depth) (hs : Size.succ depth ≤ s.length) :
    s.delete depth = .stop (.missingSlot depth s.length) := by
  rw [delete, require_of_le hs, Outcome.ok_bind, position_of_ge h]
  rfl

theorem drop_of_le (h : n ≤ s.visible.length) :
    s.drop n = .ok { s with visible := s.visible.drop n } := by
  rw [drop, require_of_le h, Outcome.ok_bind, length, Size.minus_of_le h, Outcome.ok_bind,
    withItems, items, List.take_reverse, List.reverse_reverse, Nat.sub_sub_self h]
  rfl

/-- The slots that are hidden become a frame. -/
theorem hide_of_le (h : n ≤ s.visible.length) :
    s.hide n = .ok ⟨s.visible.drop n, s.visible.take n :: s.frames⟩ := by
  rw [hide, require_of_le h, Outcome.ok_bind, length, Size.minus_of_le h, Outcome.ok_bind,
    if_pos (by omega), items, List.take_reverse, List.drop_reverse, List.reverse_reverse,
    List.reverse_reverse, Nat.sub_sub_self h]
  rfl

theorem hide_of_lt (h : s.length < n) : s.hide n = .refuse ⟨n, s.length⟩ := by
  rw [hide, require_of_lt h]
  rfl

end Stack

namespace Edit

variable {α β : Type}

@[simp] theorem run_bind (m : Edit α) (f : α → Edit β) (s : Stack) :
    (m >>= f).run s =
      match m.run s with
      | (.ok a, s) => (f a).run s
      | (.error e, s) => (.error e, s) := rfl

/-- Work is told by what it does, whatever is visible and hidden. -/
theorem ext {m m' : Edit α} (h : ∀ slots frames, m.run ⟨slots, frames⟩ = m'.run ⟨slots, frames⟩) :
    m = m' :=
  funext fun s => h s.visible s.frames

theorem run_bind_of_ok {m : Edit α} {s s' : Stack} {a : α} (h : m.run s = (.ok a, s'))
    (f : α → Edit β) : (m >>= f).run s = (f a).run s' := by
  rw [run_bind, h]

theorem run_bind_of_error {m : Edit α} {s s' : Stack} {e : Failure TypeError}
    (h : m.run s = (.error e, s')) (f : α → Edit β) : (m >>= f).run s = (.error e, s') := by
  rw [run_bind, h]

section

variable (op : Opcode) (n depth : Nat) (t x y z : Ty) (slots rest : List Ty) (frames : List (List Ty))

@[simp] theorem run_pure (a : α) (s : Stack) : (pure a : Edit α).run s = (.ok a, s) := rfl

@[simp] theorem run_lift (o : Outcome TypeError α) (s : Stack) : (lift o).run s = (o, s) := rfl

@[simp] theorem run_refuse (e : TypeError) (s : Stack) : (refuse e : Edit α).run s = (.refuse e, s) := rfl

@[simp] theorem run_visible : visible.run ⟨slots, frames⟩ = (.ok slots, ⟨slots, frames⟩) := rfl

@[simp] theorem run_topTypes :
    (topTypes n).run ⟨slots, frames⟩ = (.ok (slots.take n), ⟨slots, frames⟩) := rfl

@[simp] theorem run_push : (push t).run ⟨slots, frames⟩ = (.ok (), ⟨t :: slots, frames⟩) := rfl

@[simp] theorem run_pop : pop.run ⟨x :: rest, frames⟩ = (.ok x, ⟨rest, frames⟩) := rfl

@[simp] theorem run_require :
    (require op n).run ⟨slots, frames⟩ = (Rule.require op n slots, ⟨slots, frames⟩) := by
  have h : (require op n).run ⟨slots, frames⟩ =
      (lift ((Stack.require ⟨slots, frames⟩ n).mapError fun e =>
        .stackLength (some op) e.expected e.actual)).run ⟨slots, frames⟩ := rfl
  rw [h, run_lift, Stack.require, Stack.length, Rule.require]
  split <;> rfl

@[simp] theorem run_slot : (slot depth).run ⟨slots, frames⟩ = (slotAt slots depth, ⟨slots, frames⟩) := by
  have h : (slot depth).run ⟨slots, frames⟩ =
      (lift (Stack.slot ⟨slots, frames⟩ depth)).run ⟨slots, frames⟩ := rfl
  rw [h, run_lift, Stack.slot_eq]

@[simp] theorem run_setSlot :
    (setSlot 0 t).run ⟨x :: rest, frames⟩ = (.ok (), ⟨t :: rest, frames⟩) := by
  have h : (setSlot 0 t).run ⟨x :: rest, frames⟩ =
      (lift (Stack.setSlot ⟨x :: rest, frames⟩ 0 t) >>= setStack : Edit Unit).run
        ⟨x :: rest, frames⟩ := rfl
  rw [h, Stack.setSlot_of_lt (Nat.succ_pos _)]
  rfl

end

/-- An operation of the stack that succeeds. -/
theorem run_ofStack_of_ok {f : Stack → Outcome Stack.TooShort (α × Stack)} {s s' : Stack} {a : α}
    (h : f s = .ok (a, s')) : (ofStack f).run s = (.ok a, s') := by
  have hrun : (ofStack f).run s =
      (lift ((f s).mapError TypeError.ofTooShort) >>= fun p => setStack p.2 >>= fun _ => pure p.1 :
        Edit α).run s := rfl
  rw [hrun, h]
  rfl

/-- An operation of the stack that fails leaves it as it is. -/
theorem run_ofStack_of_error {f : Stack → Outcome Stack.TooShort (α × Stack)} {s : Stack}
    {e : Failure Stack.TooShort} (h : f s = .error e) :
    (ofStack f).run s = (Outcome.mapError TypeError.ofTooShort (.error e), s) := by
  have hrun : (ofStack f).run s =
      (lift ((f s).mapError TypeError.ofTooShort) >>= fun p => setStack p.2 >>= fun _ => pure p.1 :
        Edit α).run s := rfl
  rw [hrun, h]
  cases e <;> rfl

@[simp] theorem run_drop {n : Nat} {slots : List Ty} (h : n ≤ slots.length) (frames : List (List Ty)) :
    (drop n).run ⟨slots, frames⟩ = (.ok (), ⟨slots.drop n, frames⟩) := by
  apply run_ofStack_of_ok
  rw [Stack.drop_of_le h]
  rfl

theorem run_insert {depth : Nat} {slots : List Ty} (h : depth ≤ slots.length) (t : Ty)
    (frames : List (List Ty)) :
    (insert depth t).run ⟨slots, frames⟩ = (.ok (), ⟨slots.insertIdx depth t, frames⟩) := by
  apply run_ofStack_of_ok
  rw [Stack.insert_of_le h]
  rfl

theorem run_insert_of_lt {depth : Nat} {slots : List Ty} (h : slots.length < depth) (t : Ty)
    (frames : List (List Ty)) :
    (insert depth t).run ⟨slots, frames⟩ =
      (.refuse (.stackLength none depth slots.length), ⟨slots, frames⟩) := by
  apply run_ofStack_of_error (e := .error ⟨depth, slots.length⟩)
  rw [Stack.insert_of_lt h]
  rfl

theorem run_delete {depth : Nat} {slots : List Ty} (h : depth < slots.length)
    (frames : List (List Ty)) :
    (delete depth).run ⟨slots, frames⟩ = (.ok slots[depth], ⟨slots.eraseIdx depth, frames⟩) := by
  apply run_ofStack_of_ok
  exact Stack.delete_of_lt h

theorem run_delete_of_ge {depth : Nat} {slots : List Ty} (h : slots.length ≤ depth)
    (hs : Size.succ depth ≤ slots.length) (frames : List (List Ty)) :
    (delete depth).run ⟨slots, frames⟩ =
      (.stop (.missingSlot depth slots.length), ⟨slots, frames⟩) := by
  apply run_ofStack_of_error (e := .fault (.missingSlot depth slots.length))
  exact Stack.delete_of_ge h hs

/-- The end of work that comes to this, with what it leaves if it is refused. -/
def settle (left : List Ty) (frames : List (List Ty)) :
    Outcome TypeError (List Ty) → Outcome TypeError Unit × Stack
  | .ok out => (.ok (), ⟨out, frames⟩)
  | .error e => (.error e, ⟨left, frames⟩)

@[simp] theorem settle_ok (left out : List Ty) (frames : List (List Ty)) :
    settle left frames (.ok out) = (.ok (), ⟨out, frames⟩) := rfl

@[simp] theorem settle_error (left : List Ty) (frames : List (List Ty)) (e : Failure TypeError) :
    settle left frames (.error e) = (.error e, ⟨left, frames⟩) := rfl

@[simp] theorem settle_refuse (left : List Ty) (frames : List (List Ty)) (e : TypeError) :
    settle left frames (.refuse e) = (.refuse e, ⟨left, frames⟩) := rfl

/-- The work of a rule: the visible slots are replaced by what the rule makes of them, and left alone if it refuses
them. -/
def ofRule (rule : Rule) : Edit Unit := do
  let out ← lift (rule (← visible))
  replace (.ofSlots out)

/-- The work of a rule leaves what the rule makes of the slots, or what was there. -/
theorem run_ofRule (rule : Rule) (slots : List Ty) (frames : List (List Ty)) :
    (ofRule rule).run ⟨slots, frames⟩ = settle slots frames (rule slots) := by
  rw [ofRule, run_bind, run_visible]
  dsimp only
  rw [run_bind, run_lift]
  cases rule slots <;> rfl

section

variable {op : Opcode} {k : Unit → Edit Unit}

theorem run_require_bind_of_lt {n : Nat} {slots : List Ty} (h : slots.length < n)
    (k : Unit → Edit α) (frames : List (List Ty)) :
    (require op n >>= k).run ⟨slots, frames⟩ =
      (.refuse (.stackLength (some op) n slots.length), ⟨slots, frames⟩) := by
  apply run_bind_of_error
  rw [run_require, Rule.require_of_lt op h]
  rfl

theorem run_require_bind_of_le {n : Nat} {slots : List Ty} (h : n ≤ slots.length)
    (k : Unit → Edit α) (frames : List (List Ty)) :
    (require op n >>= k).run ⟨slots, frames⟩ = (k ()).run ⟨slots, frames⟩ := by
  apply run_bind_of_ok
  rw [run_require, Rule.require_of_le op h]

/-- Work that starts by counting slots is that of an instruction that does, if it is from there on. -/
theorem require_eq {a : Action}
    (h : ∀ slots frames, a.needed ≤ slots.length → (k ()).run ⟨slots, frames⟩ =
      settle slots frames ((a.result (slots.take a.taken)).map (· ++ slots.drop a.taken))) :
    (require op a.needed >>= k) = ofRule (a.rule op) := by
  refine ext fun slots frames => ?_
  rw [run_ofRule]
  rcases Nat.lt_or_ge slots.length a.needed with hs | hs
  · rw [run_require_bind_of_lt hs, Action.rule_of_lt op hs]
    rfl
  · rw [run_require_bind_of_le hs, Action.rule_of_le op hs, h slots frames hs]

theorem require_one_eq {f : Ty → Verdict}
    (h : ∀ x rest frames,
      (k ()).run ⟨x :: rest, frames⟩ = settle (x :: rest) frames ((f x).map (· ++ rest))) :
    (require op 1 >>= k) = ofRule ((Action.one f).rule op) := by
  refine require_eq (a := .one f) fun slots frames hs => ?_
  match slots, hs with
  | x :: rest, _ => exact h x rest frames

/-- Work on two slots that are known to be there, by what it does with them. -/
theorem require_two_eq {f : Ty → Ty → Verdict}
    (h : ∀ x y rest frames, (k ()).run ⟨x :: y :: rest, frames⟩ =
      settle (x :: y :: rest) frames ((f x y).map (· ++ rest))) :
    (require op 2 >>= k) = ofRule ((Action.two f).rule op) := by
  refine require_eq (a := .two f) fun slots frames hs => ?_
  match slots, hs with
  | x :: y :: rest, _ => exact h x y rest frames

theorem require_three_eq {f : Ty → Ty → Ty → Verdict}
    (h : ∀ x y z rest frames, (k ()).run ⟨x :: y :: z :: rest, frames⟩ =
      settle (x :: y :: z :: rest) frames ((f x y z).map (· ++ rest))) :
    (require op 3 >>= k) = ofRule ((Action.three f).rule op) := by
  refine require_eq (a := .three f) fun slots frames hs => ?_
  match slots, hs with
  | x :: y :: z :: rest, _ => exact h x y z rest frames

end

@[simp] theorem run_ite (p : Prop) [Decidable p] (m m' : Edit α) (s : Stack) :
    (if p then m else m').run s = if p then m.run s else m'.run s := by
  split <;> rfl

@[simp] theorem settle_ite (p : Prop) [Decidable p] (left : List Ty) (frames : List (List Ty))
    (o o' : Outcome TypeError (List Ty)) :
    settle left frames (if p then o else o') =
      if p then settle left frames o else settle left frames o' := by
  split <;> rfl

@[simp] theorem run_map (f : α → β) (m : Edit α) (s : Stack) :
    (f <$> m).run s = ((m.run s).1.map f, (m.run s).2) := by
  rw [map_eq_pure_bind, run_bind]
  rcases m.run s with ⟨_ | a, s⟩ <;> rfl

theorem run_top (op : Opcode) (x : Ty) (rest : List Ty) (frames : List (List Ty)) :
    (top op).run ⟨x :: rest, frames⟩ = (.ok x, ⟨x :: rest, frames⟩) := by
  simp [top, Rule.require]

/-- Replacing the top slot is the action on one operand. -/
theorem unary_eq (op : Opcode) (accepted : List Ty) (result : Ty → Option Ty) :
    unary op accepted result = ofRule ((Action.unary op accepted result).rule op) := by
  rw [unary, top, bind_assoc]
  refine require_one_eq fun x rest frames => ?_
  cases hr : result x with
  | some t => simp [hr]
  | none =>
    -- the rule tells a single accepted type by its form, the work by its number
    rcases accepted with _ | ⟨t, _ | ⟨u, ts⟩⟩ <;> simp [hr]

/-- Dropping two slots and pushing the result is the action on two operands. -/
theorem binary_eq (op : Opcode) (accepted : List Ty) (result : Ty → Ty → Option Ty) :
    binary op accepted result = ofRule ((Action.binary op (fun _ _ => accepted) result).rule op) := by
  refine require_two_eq fun x y rest frames => ?_
  cases hr : result x y <;> simp [hr, Action.resultFor]

theorem convert_eq (op : Opcode) (operand t : Ty) :
    convert op operand t = ofRule ((Action.convert op operand t).rule op) :=
  unary_eq _ _ _

theorem wrap_eq (op : Opcode) (f : Ty → Ty) :
    wrap op f = ofRule ((Action.one fun x => .ok [f x]).rule op) :=
  require_one_eq fun x rest frames => by simp

/-- Work without a look at the stack. -/
theorem put_eq {m : Edit Unit} {v : Verdict} (op : Opcode)
    (h : ∀ slots frames, m.run ⟨slots, frames⟩ = settle slots frames (v.map (· ++ slots))) :
    m = ofRule ((Action.put v).rule op) := by
  refine ext fun slots frames => ?_
  rw [h, run_ofRule, Action.rule_put]

theorem push_eq (op : Opcode) (t : Ty) : push t = ofRule ((Action.put (.ok [t])).rule op) :=
  put_eq op fun slots frames => by simp

theorem return_eq (op : Opcode) : (return : Edit Unit) = ofRule ((Action.put (.ok [])).rule op) :=
  put_eq op fun slots frames => by simp

theorem pushLiteral_eq (t : Ty) (l : Literal) :
    Shuffle.pushLiteral t l = ofRule ((Action.pushLiteral t l).rule .push) :=
  put_eq .push fun slots frames => by
    unfold Shuffle.pushLiteral
    split <;> rfl

theorem pack_eq : Text.pack = ofRule ((Action.one fun _ => .ok [.bytes]).rule .pack) :=
  require_one_eq fun x rest frames => by simp

theorem transferTokens_eq :
    Chain.transferTokens = ofRule (Action.transferTokens.rule .transferTokens) := by
  refine require_three_eq fun x y z rest frames => ?_
  cases y with
  | mutez => cases z <;> simp
  | _ => simp

theorem cons_eq : Collection.cons = ofRule (Action.cons.rule .cons) := by
  refine require_two_eq fun x y rest frames => ?_
  cases y <;> simp

theorem topPair_bind_eq {op : Opcode} {k : Ty × Ty → Edit Unit} {f : Ty → Ty → Verdict}
    (h : ∀ x l r rest frames, x.split? = some (l, r) →
      (k (l, r)).run ⟨x :: rest, frames⟩ = settle (x :: rest) frames ((f l r).map (· ++ rest))) :
    (Pairs.topPair op >>= k) =
      ofRule ((Action.onPair f fun x => .stackTop op [Pairs.anyPair] [x]).rule op) := by
  rw [Pairs.topPair, top, bind_assoc, bind_assoc]
  refine require_one_eq fun x rest frames => ?_
  cases hx : x.split? with
  | none => simp [hx, Outcome.refuse]
  | some p => simp [hx, h x p.1 p.2 rest frames hx]

theorem car_eq : Pairs.car = ofRule (Action.car.rule .car) :=
  topPair_bind_eq fun x l r rest frames _ => by simp

theorem cdr_eq : Pairs.cdr = ofRule (Action.cdr.rule .cdr) :=
  topPair_bind_eq fun x l r rest frames _ => by simp

theorem unpair_eq : Pairs.unpair = ofRule (Action.unpair.rule .unpair) := by
  rw [Pairs.unpair, top, bind_assoc]
  refine require_one_eq fun x rest frames => ?_
  cases hx : x.split? <;> simp [hx]

theorem pair_eq : Pairs.pair = ofRule (Action.pair.rule .pair) :=
  require_two_eq fun x y rest frames => by simp

/-- Popping slots one by one takes them off in order. -/
theorem run_popEach {n : Nat} {slots : List Ty} (h : n ≤ slots.length) (frames : List (List Ty)) :
    (Pairs.popEach n).run ⟨slots, frames⟩ = (.ok (slots.take n), ⟨slots.drop n, frames⟩) := by
  induction n generalizing slots with
  | zero => rfl
  | succ n ih =>
    cases slots with
    | nil => cases h
    | cons x rest => simp [Pairs.popEach, ih (Nat.le_of_succ_le_succ h)]

/-- Two slots or more always make a comb. -/
theorem exists_comb {n : Nat} {slots : List Ty} (hn : ¬n < 2) (h : n ≤ slots.length) :
    ∃ t, Ty.comb? (slots.take n) = some t := by
  refine Option.isSome_iff_exists.mp (Ty.comb?_isSome (List.ne_nil_of_length_pos ?_))
  rw [List.length_take]
  omega

/-- Popping the slots first and folding them from the last on makes the comb of the top slots. -/
theorem pairN_eq (n : Nat) : Pairs.pairN n = ofRule ((Action.pairN n).rule .pair) := by
  unfold Pairs.pairN Action.pairN
  split
  · exact put_eq .pair fun slots frames => rfl
  · rename_i hn
    refine require_eq (a := ⟨n, n, _⟩) fun slots frames hs => ?_
    obtain ⟨t, ht⟩ := exists_comb hn hs
    simp [run_popEach hs frames, ← Ty.comb?_eq_combFromLast?, ht]

theorem getN_eq (n : Nat) : Pairs.getN n = ofRule ((Action.getN n).rule .get) := by
  rw [Pairs.getN, Pairs.topPair, top, bind_assoc, bind_assoc]
  refine require_one_eq fun x rest frames => ?_
  cases hx : x.split? with
  | none => simp [hx, Action.component, Outcome.refuse]
  | some p =>
    cases hg : x.simplify.get? n <;> simp [hx, hg, Ty.component_eq, Action.component]

/-- The pair is found below the top before this is popped, and written on top after it. -/
theorem updateN_eq (n : Nat) : Pairs.updateN n = ofRule ((Action.updateN n).rule .update) := by
  refine require_two_eq fun x y rest frames => ?_
  cases hy : y.split? with
  | none => simp [hy, Action.component]
  | some p =>
    cases hu : y.simplify.update? n x <;> simp [hy, hu, Ty.withComponent_eq, Action.component]

theorem getMap_eq : Collection.getMap = ofRule (Action.get.rule .get) := by
  refine require_two_eq fun x y rest frames => ?_
  cases y with
  | map k v | bigMap k v =>
    by_cases hk : x.equals k <;>
      simp [Collection.valueAtKey, Collection.entry?, hk, Outcome.refuse]
  | _ => simp [Collection.valueAtKey, Collection.entry?, Outcome.refuse]

/-- `EXEC` looks at both slots before it drops them and pushes the result. -/
theorem exec_eq : Function.exec = ofRule (Action.exec.rule .exec) := by
  refine require_two_eq fun x y rest frames => ?_
  cases y <;> simp

/-- The argument is popped before the lambda that has been found below it is written. -/
theorem apply_eq : Function.apply = ofRule (Action.apply.rule .apply) := by
  refine require_two_eq fun x y rest frames => ?_
  cases y with
  | lambda f => cases hf : f.arg.simplify <;> simp [hf, Function.refuseApply]
  | _ => simp [Function.refuseApply]

theorem drop_eq (n : Nat) : Shuffle.drop n = ofRule ((Action.drop n).rule .drop) :=
  require_eq (a := .drop n) fun _ frames hs => run_drop hs frames

/-- A slot among those that are taken. -/
theorem slotAt_take {slots : List Ty} {n : Nat} (h : n < slots.length) :
    (slotAt (slots.take (n + 1)) n : Outcome TypeError Ty) = .ok slots[n] := by
  rw [slotAt_of_lt (by rw [List.length_take]; omega), List.getElem_take]

theorem dup_eq (n : Nat) : Shuffle.dup n = ofRule ((Action.dup n).rule .dup) := by
  cases n with
  | zero => exact put_eq .dup fun slots frames => rfl
  | succ n =>
    refine require_eq (a := .dup (n + 1)) fun slots frames hs => ?_
    rw [Size.minus_of_le (Nat.succ_pos n)]
    simp [Action.dup, slotAt_take hs, slotAt_of_lt hs]

theorem dig_eq (n : Nat) : Shuffle.dig n = ofRule ((Action.dig n).rule .dig) := by
  refine require_eq (a := .dig n) fun slots frames hs => ?_
  rcases Nat.lt_or_ge n slots.length with hn | hn
  · rw [run_bind_of_ok (run_delete hn frames)]
    simp [Action.dig, slotAt_take hn, List.eraseIdx_eq_take_drop_succ, List.take_take]
  · rw [run_bind_of_error (run_delete_of_ge hn hs frames)]
    simp [Action.dig, List.take_of_length_le (Nat.le_succ_of_le hn), slotAt_of_ge hn, Outcome.stop]

/-- `SWAP` pops the top slot and inserts it below the other. -/
theorem swap_eq : Shuffle.swap = ofRule (Action.swap.rule .swap) :=
  require_two_eq fun x y rest frames => by simp [run_insert]

theorem failWith_eq : Shuffle.failWith = ofRule Rule.failWith := by
  refine ext fun slots frames => ?_
  rw [run_ofRule]
  cases slots with
  | nil => exact run_require_bind_of_lt (by simp) _ _
  | cons x rest => exact run_require_bind_of_le (by simp) _ _

end Edit

end Michelson

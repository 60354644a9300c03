import Michelson.Proofs.Rules

namespace Michelson

/-- Refused for want of slots, or stopped for it. -/
def IsShort {α : Type} (o : Outcome TypeError α) : Prop :=
  (∃ e : TypeError, o = .refuse e ∧ e.kind = .stackLength) ∨ ∃ f, o = .stop f

namespace Rule

/-- A rule that looks at the top `height` slots only. -/
structure Reads (rule : Rule) (height : Nat) : Prop where
  short : ∀ slots : List Ty, slots.length < height → IsShort (rule slots)
  append : ∀ top rest : List Ty, top.length = height →
    rule (top ++ rest) = (rule top).map (· ++ rest)

def Local (rule : Rule) : Prop :=
  ∃ height, rule.Reads height

/-- What is below a stack that is high enough makes no difference. -/
theorem Reads.extend {rule : Rule} {height : Nat} (h : rule.Reads height) {slots : List Ty}
    (hs : height ≤ slots.length) (base : List Ty) :
    rule (slots ++ base) = (rule slots).map (· ++ base) := by
  have htop : (slots.take height).length = height := List.length_take_of_le hs
  have hslots := h.append _ (slots.drop height) htop
  have hbase := h.append _ (slots.drop height ++ base) htop
  rw [← List.append_assoc, List.take_append_drop] at hbase
  rw [List.take_append_drop] at hslots
  rw [hbase, hslots]
  cases rule (slots.take height) with
  | error e => rfl
  | ok out => simp [Except.map]

/-- A local rule lacks slots, or does the same above others. -/
theorem Local.short_or_extend {rule : Rule} (h : rule.Local) (slots base : List Ty) :
    IsShort (rule slots) ∨ rule (slots ++ base) = (rule slots).map (· ++ base) := by
  obtain ⟨height, h⟩ := h
  rcases Nat.lt_or_ge slots.length height with hs | hs
  · exact .inl (h.short slots hs)
  · exact .inr (h.extend hs base)

/-- A rule that looks at no slot. -/
theorem reads_zero {rule : Rule} (h : ∀ rest, rule rest = (rule []).map (· ++ rest)) :
    rule.Reads 0 where
  short _ hs := absurd hs (Nat.not_lt_zero _)
  append top rest ht := by
    rw [List.eq_nil_of_length_eq_zero ht]
    exact h rest

theorem isShort_require {α : Type} (op : Opcode) {n : Nat} {slots : List Ty} (hs : slots.length < n)
    (f : Unit → Outcome TypeError α) : IsShort (require op n slots >>= f) := by
  rw [require_of_lt op hs]
  exact .inl ⟨_, rfl, rfl⟩

end Rule

theorem IsShort.map {α β : Type} {o : Outcome TypeError α} (h : IsShort o) (f : α → β) :
    IsShort (o.map f) := by
  rcases h with ⟨e, rfl, hk⟩ | ⟨fault, rfl⟩
  · exact .inl ⟨e, rfl, hk⟩
  · exact .inr ⟨fault, rfl⟩

/-- An instruction looks at the slots it takes off, and what is below them stays as it is. -/
theorem Action.reads (op : Opcode) {a : Action} (hn : a.needed ≤ a.taken)
    (h : ∀ xs, a.needed ≤ xs.length → xs.length < a.taken → IsShort (a.result xs)) :
    (a.rule op).Reads a.taken where
  short slots hs := by
    rcases Nat.lt_or_ge slots.length a.needed with hlt | hge
    · rw [rule_of_lt op hlt]
      exact .inl ⟨_, rfl, rfl⟩
    · rw [rule_of_le op hge, List.take_of_length_le (Nat.le_of_lt hs)]
      exact (h slots hge hs).map _
  append top rest ht := by
    have htop : a.needed ≤ top.length := ht ▸ hn
    have hall : a.needed ≤ (top ++ rest).length := by
      rw [List.length_append]
      omega
    rw [rule_of_le op htop, rule_of_le op hall, List.take_left' ht, List.drop_left' ht,
      List.take_of_length_le (Nat.le_of_eq ht), List.drop_of_length_le (Nat.le_of_eq ht)]
    cases a.result top with
    | error e => rfl
    | ok out => simp [Except.map]

end Michelson

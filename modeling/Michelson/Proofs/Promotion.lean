import Michelson.Proofs.Meaning
import Michelson.Proofs.Refusal

namespace Michelson

/-- The type that a binary operation gives for its operands. -/
inductive Promotes : Opcode → Ty → Ty → Ty → Prop where
  | listed {op : Opcode} {x y t : Ty} : ⟨x, y, t⟩ ∈ op.promotions → Promotes op x y t
  | options {l r : Ty} : l.equals r → Promotes .compare (.option l) (.option r) .int

def Opcode.Takes (op : Opcode) (t : Ty) : Prop :=
  t ∈ op.promotions.map Promotion.top ∨ op = .compare ∧ ∃ u, t = .option u

/-- The errors for operands that an operation does not take together. Options are told to have unlike contents; any other
operands are shown with types that the operation takes. -/
inductive Mismatch : Opcode → Ty → Ty → TypeError → Prop where
  | contents {l r : Ty} : Mismatch .compare (.option l) (.option r)
    (.stackTop .compare [.option l, .option l] [.option l, .option r])
  | operand {op : Opcode} {x y : Ty} {accepted : List Ty} :
    (op = .compare → ∀ l r, x = .option l → y ≠ .option r) → accepted ≠ [] →
    (∀ t ∈ accepted, op.Takes t) → Mismatch op x y (.operand op accepted [x, y])

namespace Promotion

variable {x y t : Ty}

/-- Where no operands are listed twice, they have the result they are listed with. -/
theorem lookup_of_mem {table : List Promotion} (hd : (table.map fun p => (p.top, p.below)).Nodup)
    (h : ⟨x, y, t⟩ ∈ table) : lookup x y table = some t := by
  induction table with
  | nil => cases h
  | cons p rest ih =>
    rw [List.map_cons, List.nodup_cons] at hd
    obtain ⟨hp, hrest⟩ := hd
    rw [lookup]
    rcases List.mem_cons.mp h with rfl | h
    · exact if_pos ⟨rfl, rfl⟩
    · rw [if_neg, ih hrest h]
      rintro ⟨hx, hy⟩
      exact hp (List.mem_map.mpr ⟨_, h, by rw [hx, hy]⟩)

/-- No operation lists the same operands twice. -/
theorem nodup_promotions (op : Opcode) : (op.promotions.map fun p => (p.top, p.below)).Nodup := by
  cases op <;> simp [Opcode.promotions, numbers]

theorem lookup_eq_some_iff {op : Opcode} :
    lookup x y op.promotions = some t ↔ ⟨x, y, t⟩ ∈ op.promotions :=
  ⟨mem_of_lookup, lookup_of_mem (nodup_promotions op)⟩

end Promotion

namespace Rule

open Promotion (lookup lookup_eq_some_iff)

/-- A rule that gives the listed result for listed operands, in their place, and refuses all others. -/
def Follows (op : Opcode) (rule : Rule) : Prop :=
  ∀ x y rest, (∀ t, Promotes op x y t → rule (x :: y :: rest) = .ok (t :: rest)) ∧
    ((∀ t, ¬Promotes op x y t) → ∃ e, Mismatch op x y e ∧ rule (x :: y :: rest) = .refuse e)

/-- An overloaded operation follows its list, and names types on it where it refuses. -/
theorem follows_overloaded {op : Opcode} {accepted : Ty → Ty → List Ty} (hop : op ≠ .compare)
    (named : ∀ x y, accepted x y ≠ [] ∧ ∀ t ∈ accepted x y, op.Takes t) :
    ((Action.overloaded op accepted).rule op).Follows op := by
  intro x y rest
  rw [Action.overloaded, Action.binary, Action.rule_two_cons]
  constructor
  · rintro t (hlisted | -)
    · rw [lookup_eq_some_iff.mpr hlisted]
      rfl
    · exact absurd rfl hop
  · intro hnone
    cases hresult : lookup x y op.promotions with
    | some t => exact absurd (.listed (lookup_eq_some_iff.mp hresult)) (hnone t)
    | none =>
      obtain ⟨hne, htakes⟩ := named x y
      exact ⟨_, .operand (fun h => absurd h hop) hne htakes, rfl⟩

/-- `COMPARE` follows its list and takes options with equal contents besides. -/
theorem follows_compare : (Action.compare.rule .compare).Follows .compare := by
  intro x y rest
  rw [Action.compare, Action.rule_two_cons]
  constructor
  · rintro t (hlisted | heq)
    · have hresult := lookup_eq_some_iff.mpr hlisted
      have hoption : ∀ l, x ≠ .option l := by
        rintro l rfl
        simp [Opcode.promotions] at hlisted
      split
      · exact absurd rfl (hoption _)
      · rw [hresult]
        rfl
    · exact congrArg (Except.map _) (if_pos heq)
  · intro hnone
    split
    · rw [if_neg fun heq => hnone _ (.options heq)]
      exact ⟨_, .contents, rfl⟩
    · rename_i hoptions
      cases hresult : lookup x y (Opcode.promotions .compare) with
      | some t => exact absurd (.listed (lookup_eq_some_iff.mp hresult)) (hnone t)
      | none =>
        refine ⟨_, .operand (fun _ => hoptions) (by simp) fun t ht => ?_, rfl⟩
        simp only [List.mem_cons, List.not_mem_nil, or_false] at ht
        rcases ht with rfl | rfl | rfl | rfl | rfl | rfl | rfl | rfl <;>
          simp [Opcode.Takes, Opcode.promotions]

/-- A binary operation follows the overloads of its instruction. -/
theorem follows_plain {op : Opcode} (hop : op.promotions ≠ []) : (plain op []).Follows op := by
  cases op
  case add | sub | subMutez | or | xor | and | concat =>
    refine follows_overloaded (by simp) fun x y => ?_
    simp [Opcode.Takes, Opcode.promotions, Promotion.numbers]
  case mul | ediv =>
    refine follows_overloaded (by simp) fun x y => ?_
    split <;> simp [Opcode.Takes, Opcode.promotions, Promotion.numbers]
  case compare => exact follows_compare
  all_goals exact absurd rfl hop

end Rule

theorem rule_check_binary {op : Opcode} (hop : op.promotions ≠ []) (ctx : Context) (slots : List Ty) :
    (Instr.check ⟨op, []⟩).rule ctx slots = Rule.plain op [] slots := by
  rw [Instr.rule_check, operands]
  cases op <;> first | rfl | exact absurd rfl hop

/-- The binary operations implement their overloads exactly, whichever family they are routed to. Operands that are
listed, or options with equal contents for `COMPARE`, are replaced by the result that goes with them, and what lies
below is kept; any others are refused by an error that shows them, and the stack is kept as it is. -/
theorem binary_operations_follow_promotions {op : Opcode} (hop : op.promotions ≠ []) (ctx : Context)
    (x y : Ty) (rest : List Ty) (frames : List (List Ty)) :
    let run := (Instr.check ⟨op, []⟩).run ⟨ctx, ⟨x :: y :: rest, frames⟩⟩
    (∀ t, Promotes op x y t ↔ run.outcome = .ok () ∧ run.state = ⟨ctx, ⟨t :: rest, frames⟩⟩) ∧
      ((∀ t, ¬Promotes op x y t) → (∃ e, Mismatch op x y e ∧ run.outcome = .refuse e) ∧
        run.state = ⟨ctx, ⟨x :: y :: rest, frames⟩⟩) := by
  intro run
  have hconfined := instr_confined ⟨op, []⟩
  have hrule := rule_check_binary hop ctx (x :: y :: rest)
  obtain ⟨hlisted, hother⟩ := Rule.follows_plain hop x y rest
  have accepted {t : Ty} (h : Promotes op x y t) :
      run.outcome = .ok () ∧ run.state = ⟨ctx, ⟨t :: rest, frames⟩⟩ :=
    hconfined.run_of_rule (hrule.trans (hlisted t h)) frames
  have refused (h : ∀ t, ¬Promotes op x y t) : ∃ e, Mismatch op x y e ∧ run.outcome = .refuse e := by
    obtain ⟨e, hmismatch, he⟩ := hother h
    exact ⟨e, hmismatch, (Check.rule_eq_error_iff hconfined (s := ⟨ctx, ⟨x :: y :: rest, frames⟩⟩)).mp
      (hrule.trans he)⟩
  refine ⟨fun t => ⟨accepted, ?_⟩, fun h => ⟨refused h, ?_⟩⟩
  · -- an accepted run has a result, and there is only one
    rintro ⟨hok, hstate⟩
    apply Classical.byContradiction
    intro hnot
    have hnone : ∀ u, ¬Promotes op x y u := by
      intro u hu
      obtain ⟨-, hstate'⟩ := accepted hu
      cases hstate.symm.trans hstate'
      exact hnot hu
    obtain ⟨e, -, he⟩ := refused hnone
    cases he.symm.trans hok
  · obtain ⟨e, -, he⟩ := refused h
    refine Instr.state_of_refused ?_ ?_ ?_ ?_ he <;> rintro rfl <;> exact hop rfl

/-- An amount is divided by a number, and not the other way round. -/
theorem binary_operations_follow_promotions_ediv :
    let run (x y : Ty) := (Instr.check ⟨.ediv, []⟩).run ⟨.ofConfig {}, ⟨[x, y, .unit], [[.bool]]⟩⟩
    Opcode.ediv.promotions ≠ [] ∧
      ((run .mutez .nat).outcome = .ok () ∧ (run .mutez .nat).state =
        ⟨.ofConfig {}, ⟨[.option (.pair .mutez .mutez), .unit], [[.bool]]⟩⟩) ∧
      (∃ e, Mismatch .ediv .nat .mutez e ∧ (run .nat .mutez).outcome = .refuse e) ∧
      (run .nat .mutez).state = ⟨.ofConfig {}, ⟨[.nat, .mutez, .unit], [[.bool]]⟩⟩ := by
  intro run
  have hop : Opcode.ediv.promotions ≠ [] := by simp [Opcode.promotions]
  have hlisted : Promotes .ediv .mutez .nat (.option (.pair .mutez .mutez)) :=
    .listed (by simp [Opcode.promotions])
  have hother : ∀ t, ¬Promotes .ediv .nat .mutez t := by
    intro t h
    cases h with
    | listed h => simp [Opcode.promotions, Promotion.numbers] at h
  obtain ⟨haccepts, -⟩ :=
    binary_operations_follow_promotions hop (.ofConfig {}) .mutez .nat [.unit] [[.bool]]
  obtain ⟨-, hrefuses⟩ :=
    binary_operations_follow_promotions hop (.ofConfig {}) .nat .mutez [.unit] [[.bool]]
  exact ⟨hop, (haccepts _).mp hlisted, hrefuses hother⟩

end Michelson

import Michelson.Size
import Michelson.Syntax

namespace Michelson.Ty

/-- The right comb of a list of types, the first one leftmost. -/
def comb? : List Ty → Option Ty
  | [] => none
  | [t] => some t
  | t :: ts => (comb? ts).map (.pair t)

/-- The same comb built from the last type on, each type put to the left of what is there. -/
def combFromLast? (ts : List Ty) : Option Ty :=
  match ts.reverse with
  | [] => none
  | last :: others => some (others.foldl (fun comb t => .pair t comb) last)

/-- The component of a comb at an index. Index `2k` is the `k`-th node on the right spine, the whole comb being index
`0`, and index `2k + 1` is the left child of that node. -/
def get? : Ty → Nat → Option Ty
  | t, 0 => some t
  | .pair l _, 1 => some l
  | .pair _ r, n + 2 => r.get? n
  | _, _ => none

def update? : Ty → Nat → Ty → Option Ty
  | _, 0, new => some new
  | .pair _ r, 1, new => some (.pair new r)
  | .pair l r, n + 2, new => (r.update? n new).map (.pair l)
  | _, _, _ => none

section

variable {ε : Type}

def component : Ty → Nat → Outcome ε (Option Ty)
  | t, 0 => .ok (some t)
  | .pair l _, 1 => .ok (some l)
  | .pair _ r, n => do
    let left ← Size.minus (.negative n 2) n 2
    r.component left
  | _, _ => .ok none

def withComponent : Ty → Nat → Ty → Outcome ε (Option Ty)
  | _, 0, new => .ok (some new)
  | .pair _ r, 1, new => .ok (some (.pair new r))
  | .pair l r, n, new => do
    let left ← Size.minus (.negative n 2) n 2
    let r ← r.withComponent left new
    return r.map (.pair l)
  | _, _, _ => .ok none

end

theorem comb?_isSome {ts : List Ty} (h : ts ≠ []) : (comb? ts).isSome := by
  induction ts with
  | nil => exact absurd rfl h
  | cons t ts ih =>
    cases ts with
    | nil => rfl
    | cons u us => simpa [comb?] using ih (by simp)

theorem comb?_cons_cons (t u : Ty) (us : List Ty) :
    comb? (t :: u :: us) = (comb? (u :: us)).map (.pair t) := by
  rw [comb?]
  simp

/-- Folding types from the last one on gives their comb. -/
theorem comb?_eq_combFromLast? (ts : List Ty) : comb? ts = combFromLast? ts := by
  induction ts with
  | nil => rfl
  | cons t us ih =>
    cases us with
    | nil => rfl
    | cons u us =>
      rw [comb?_cons_cons, ih, combFromLast?, combFromLast?, List.reverse_cons (a := t)]
      cases h : (u :: us).reverse with
      | nil => simp at h
      | cons last others => simp

/-- A component can be written exactly if it can be read. -/
theorem isSome_update? {t x : Ty} {n : Nat} : (t.update? n x).isSome = (t.get? n).isSome := by
  fun_induction Ty.update? t n x with
  | case1 => simp only [get?, Option.isSome_some]
  | case2 => rfl
  | case3 l r n x ih => rw [get?, Option.isSome_map, ih]
  | case4 t n x hzero hone hnext =>
    rw [get?] <;> first | rfl | assumption

section

variable {ε : Type}

/-- Where an index is in none of the ways to go through a pair, there is no pair. -/
theorem not_pair {t : Ty} {n : Nat} (hzero : n = 0 → False)
    (hone : ∀ l r : Ty, t = .pair l r → n = 1 → False)
    (hmore : ∀ (l r : Ty) (k : Nat), t = .pair l r → n = k + 2 → False) :
    ∀ l r : Ty, t = .pair l r → False := by
  intro l r ht
  match n with
  | 0 => exact hzero rfl
  | 1 => exact hone l r ht rfl
  | n + 2 => exact hmore l r n ht rfl

/-- Going down a comb by two never takes two from less, and finds the component. -/
theorem component_eq (t : Ty) (n : Nat) : (t.component n : Outcome ε (Option Ty)) = .ok (t.get? n) := by
  fun_induction Ty.get? t n with
  | case1 t => cases t <;> rfl
  | case2 => rfl
  | case3 l r n ih =>
    rw [component, Size.minus_of_le (by omega), Outcome.ok_bind]
    · exact ih
    · omega
    · omega
  | case4 t n hzero hone hmore =>
    have hpair := not_pair hzero hone hmore
    rw [component] <;> assumption

theorem withComponent_eq (t : Ty) (n : Nat) (new : Ty) :
    (t.withComponent n new : Outcome ε (Option Ty)) = .ok (t.update? n new) := by
  fun_induction Ty.update? t n new with
  | case1 t => cases t <;> rfl
  | case2 => rfl
  | case3 l r n new ih =>
    rw [withComponent, Size.minus_of_le (by omega), Outcome.ok_bind]
    · rw [show n + 2 - 2 = n from rfl, ih]
      rfl
    · omega
    · omega
  | case4 t n new hzero hone hmore =>
    have hpair := not_pair hzero hone hmore
    rw [withComponent] <;> assumption

end

end Michelson.Ty

import Michelson.Json.Value

namespace Michelson.Json

def digitBase : Nat :=
  4294967296

/-- The digits of a number in base `2 ^ 32`, the least significant first. There are no high zeros, and zero has no
digits. -/
def digits (n : Nat) : List Nat :=
  if n = 0 then [] else n % digitBase :: digits (n / digitBase)
termination_by n
decreasing_by exact Nat.div_lt_self (Nat.pos_of_ne_zero ‹_›) (by decide)

def ofDigits : List Nat → Nat
  | [] => 0
  | d :: ds => d + digitBase * ofDigits ds

theorem ofDigits_digits (n : Nat) : ofDigits (digits n) = n := by
  induction n using Nat.strongRecOn with
  | ind n ih =>
    rw [digits]
    split
    · simp_all [ofDigits]
    · rename_i h
      rw [ofDigits, ih _ (Nat.div_lt_self (Nat.pos_of_ne_zero h) (by decide)), Nat.mod_add_div]

theorem lt_digitBase_of_mem_digits {n d : Nat} (h : d ∈ digits n) : d < digitBase := by
  induction n using Nat.strongRecOn with
  | ind n ih =>
    rw [digits] at h
    split at h
    · simp at h
    · rename_i hn
      rcases List.mem_cons.mp h with rfl | h
      · exact Nat.mod_lt _ (by decide)
      · exact ih _ (Nat.div_lt_self (Nat.pos_of_ne_zero hn) (by decide)) h

def below? (bound : Nat) : Json → Option Nat
  | .integer (.ofNat n) => if n < bound then some n else none
  | _ => none

def ofInt (n : Int) : Json :=
  .array [.integer n.sign, .array ((digits n.natAbs).map fun d => .integer (.ofNat d))]

/-- An integer; its two arrays take two levels of nesting. -/
def int? (room : Nat) : Json → Option Int
  | .array [.integer sign, .array items] =>
    if room < 2 then none
    else
      (items.mapM (below? digitBase)).bind fun ds =>
        if sign = -1 then some (-ofDigits ds)
        else if sign = 0 then some 0
        else if sign = 1 then some (ofDigits ds)
        else none
  | _ => none

end Michelson.Json

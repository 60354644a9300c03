import Michelson.Failure

namespace Michelson.Size

/-- The largest size. Sums and products stop there. -/
def max : Nat :=
  18446744073709551615

def succ (n : Nat) : Nat :=
  min (n + 1) max

def add (m n : Nat) : Nat :=
  min (m + n) max

def mul (m n : Nat) : Nat :=
  min (m * n) max

/-- The difference of two sizes; this fault arises if it would be below zero. -/
def minus {ε : Type} (fault : Fault) (m n : Nat) : Outcome ε Nat :=
  if n ≤ m then .ok (m - n) else .stop fault

section

variable {ε : Type} {fault : Fault} {m n : Nat}

theorem minus_of_le (h : n ≤ m) : (minus fault m n : Outcome ε Nat) = .ok (m - n) :=
  if_pos h

theorem minus_of_lt (h : m < n) : (minus fault m n : Outcome ε Nat) = .stop fault :=
  if_neg (Nat.not_le.mpr h)

end

end Michelson.Size

import Michelson.Proofs.Locality

namespace Michelson

/-- A sublanguage of types: whether `universal`, variables and records may occur in it, and whether it restricts also
what a lambda only remembers, its body and the arguments applied to it. -/
structure Fragment where
  universal : Bool := true
  var : Bool := true
  record : Bool := true
  remembered : Bool := true

namespace Fragment

def noUniversal : Fragment :=
  { universal := false }

def noVar : Fragment :=
  { var := false }

def noRecord : Fragment :=
  { record := false }

def noUniversalOrRecord : Fragment :=
  { universal := false, record := false }

/-- The same restriction, but not on what a lambda only remembers. -/
def outer (g : Fragment) : Fragment :=
  { g with remembered := false }

end Fragment

mutual

def Ty.within (g : Fragment) : Ty → Bool
  | .universal => g.universal
  | .var _ => g.var
  | .record ⟨_, fields⟩ => g.record && fieldsWithin g fields
  | .lambda ⟨arg, ret, body, applied⟩ =>
    arg.within g && ret.within g && (!g.remembered || (codeWithin g body && typesWithin g applied))
  | .option t | .list t | .set t | .contract t => t.within g
  | .or l r | .pair l r | .map l r | .bigMap l r => l.within g && r.within g
  | .unit | .bool | .int | .nat | .mutez | .string | .bytes | .address | .timestamp
  | .operation => true

def fieldsWithin (g : Fragment) : List Field → Bool
  | [] => true
  | ⟨_, t⟩ :: rest => t.within g && fieldsWithin g rest

def typesWithin (g : Fragment) : List Ty → Bool
  | [] => true
  | t :: rest => t.within g && typesWithin g rest

/-- Every type argument of the code is in the sublanguage, at every level of nesting. -/
def codeWithin (g : Fragment) : List Instr → Bool
  | [] => true
  | i :: rest => i.within g && codeWithin g rest

def Instr.within (g : Fragment) : Instr → Bool
  | ⟨_, args⟩ => argsWithin g args

def argsWithin (g : Fragment) : List Arg → Bool
  | [] => true
  | arg :: rest => arg.within g && argsWithin g rest

def Arg.within (g : Fragment) : Arg → Bool
  | .code body => codeWithin g body
  | .type t => t.within g
  | .literal _ => true

end

section

variable {g : Fragment}

theorem typesWithin_iff {ts : List Ty} : typesWithin g ts ↔ ∀ t ∈ ts, t.within g := by
  induction ts with
  | nil => simp [typesWithin]
  | cons t ts ih => simp [typesWithin, ih]

@[simp] theorem typesWithin_nil : typesWithin g [] = true := by
  rw [typesWithin]

@[simp] theorem typesWithin_cons (t : Ty) (ts : List Ty) :
    typesWithin g (t :: ts) = (t.within g && typesWithin g ts) := by
  rw [typesWithin]

@[simp] theorem typesWithin_append (ts us : List Ty) :
    typesWithin g (ts ++ us) = (typesWithin g ts && typesWithin g us) := by
  induction ts with
  | nil => simp
  | cons t ts ih => simp [ih, Bool.and_assoc]

/-- A part of a list in a sublanguage is in it. -/
theorem typesWithin_of_subset {ts us : List Ty} (h : typesWithin g us) (hs : ts ⊆ us) :
    typesWithin g ts := by
  rw [typesWithin_iff] at h ⊢
  intro t ht
  exact h t (hs ht)

theorem argsWithin_iff {args : List Arg} : argsWithin g args ↔ ∀ arg ∈ args, arg.within g := by
  induction args with
  | nil => simp [argsWithin]
  | cons arg args ih => simp [argsWithin, ih]

@[simp] theorem codeWithin_cons (op : Opcode) (args : List Arg) (rest : List Instr) :
    codeWithin g (⟨op, args⟩ :: rest) = (argsWithin g args && codeWithin g rest) := by
  rw [codeWithin, Instr.within]

theorem Ty.within_lambda (f : Lambda) :
    (Ty.lambda f).within g = (f.arg.within g && f.ret.within g &&
      (!g.remembered || (codeWithin g f.body && typesWithin g f.applied))) := by
  obtain ⟨arg, ret, body, applied⟩ := f
  rw [Ty.within]

theorem Ty.within_function {arg ret : Ty} {body : List Instr} (ha : arg.within g)
    (hr : ret.within g) (hb : codeWithin g body) : (Ty.function arg ret body).within g := by
  simp [Ty.function, Ty.within, ha, hr, hb]

/-- The types of the fields of a record are in its sublanguage. -/
theorem Ty.within_record {r : Record} (h : (Ty.record r).within g) :
    typesWithin g (r.fields.map (·.type)) := by
  obtain ⟨name, fields⟩ := r
  rw [Ty.within, Bool.and_eq_true] at h
  have hf := h.2
  clear h
  induction fields with
  | nil => simp
  | cons f fields ih =>
    obtain ⟨_, t⟩ := f
    rw [fieldsWithin, Bool.and_eq_true] at hf
    simp [hf.1, ih hf.2]

/-- A comb is in a sublanguage if its components are. -/
theorem Ty.within_comb {ts : List Ty} {t : Ty} (h : typesWithin g ts)
    (ht : Ty.comb? ts = some t) : t.within g := by
  induction ts generalizing t with
  | nil => cases ht
  | cons u ts ih =>
    rw [typesWithin_cons, Bool.and_eq_true] at h
    cases ts with
    | nil =>
      cases ht
      exact h.1
    | cons v vs =>
      rw [Ty.comb?, Option.map_eq_some_iff] at ht
      · obtain ⟨c, hc, rfl⟩ := ht
        simp [Ty.within, h.1, ih h.2 hc]
      · simp

/-- A record stands for a type in its sublanguage. -/
theorem Record.within_shape {r : Record} (h : (Ty.record r).within g) : r.shape.within g := by
  rw [Record.shape_eq]
  cases hc : Ty.comb? (r.fields.map (·.type)) with
  | none => simp [Ty.within]
  | some t => exact Ty.within_comb (Ty.within_record h) hc

/-- The components of a type in a sublanguage are in it. -/
theorem Ty.within_split {t l r : Ty} (h : t.within g) (hs : t.split? = some (l, r)) :
    l.within g ∧ r.within g := by
  unfold Ty.split? at hs
  split at hs
  · cases hs
    simpa [Ty.within] using h
  · split at hs
    · rename_i hr
      cases hs
      have hw := Record.within_shape h
      rw [hr] at hw
      simpa [Ty.within] using hw
    · cases hs
  · cases hs

end

mutual

/-- Unfolding records does not leave a sublanguage. -/
theorem Ty.within_simplify {g : Fragment} : ∀ {t : Ty}, t.within g → t.simplify.within g
  | .record ⟨_, fields⟩, h => by
    rw [Ty.within, Bool.and_eq_true] at h
    rw [Ty.simplify]
    exact within_simplifyFields h.2
  | .pair l r, h => by
    rw [Ty.within, Bool.and_eq_true] at h
    rw [Ty.simplify, Ty.within, Bool.and_eq_true]
    exact ⟨Ty.within_simplify h.1, Ty.within_simplify h.2⟩
  | .unit, h | .bool, h | .int, h | .nat, h | .mutez, h | .string, h | .bytes, h | .address, h
  | .timestamp, h | .operation, h | .option _, h | .or _ _, h | .list _, h | .set _, h
  | .map _ _, h | .bigMap _ _, h | .contract _, h | .lambda _, h | .universal, h | .var _, h => by
    simpa [Ty.simplify] using h

theorem within_simplifyFields {g : Fragment} :
    ∀ {fields : List Field}, fieldsWithin g fields → (simplifyFields fields).within g
  | [], _ => by simp [simplifyFields, Ty.within]
  | [⟨_, t⟩], h => by
    rw [fieldsWithin, Bool.and_eq_true] at h
    rw [simplifyFields]
    exact Ty.within_simplify h.1
  | ⟨_, t⟩ :: f :: rest, h => by
    rw [fieldsWithin, Bool.and_eq_true] at h
    rw [simplifyFields, Ty.within, Bool.and_eq_true]
    · exact ⟨Ty.within_simplify h.1, within_simplifyFields h.2⟩
    · simp

end

theorem Ty.within_get {g : Fragment} {t u : Ty} {n : Nat} (h : t.within g)
    (hg : t.get? n = some u) : u.within g := by
  fun_induction Ty.get? t n with
  | case1 =>
    cases hg
    exact h
  | case2 =>
    cases hg
    rw [Ty.within, Bool.and_eq_true] at h
    exact h.1
  | case3 l r n ih =>
    rw [Ty.within, Bool.and_eq_true] at h
    exact ih h.2 hg
  | case4 => cases hg

theorem Ty.within_update {g : Fragment} {t u new : Ty} {n : Nat} (h : t.within g)
    (hn : new.within g) (hu : t.update? n new = some u) : u.within g := by
  fun_induction Ty.update? t n new generalizing u with
  | case1 =>
    cases hu
    exact hn
  | case2 =>
    cases hu
    rw [Ty.within, Bool.and_eq_true] at h ⊢
    exact ⟨hn, h.2⟩
  | case3 l r n new ih =>
    rw [Ty.within, Bool.and_eq_true] at h
    obtain ⟨c, hc, rfl⟩ := Option.map_eq_some_iff.mp hu
    rw [Ty.within, Bool.and_eq_true]
    exact ⟨h.1, ih h.2 hn hc⟩
  | case4 => cases hu

namespace Rule

def Keeps (g : Fragment) (rule : Rule) : Prop :=
  ∀ slots out : List Ty, typesWithin g slots → rule slots = .ok out → typesWithin g out

section

variable {g : Fragment} {op : Opcode}

theorem keeps_refuse (e : TypeError) : Keeps g fun _ => .refuse e := by
  intro _ _ _ h
  cases h

theorem keeps_onTop {f : Ty → Rule} (h : ∀ x, x.within g → (f x).Keeps g) :
    (onTop op f).Keeps g
  | [], out, _, ho => by
    rw [onTop_nil] at ho
    cases ho
  | x :: rest, out, hs, ho => by
    rw [typesWithin_cons, Bool.and_eq_true] at hs
    rw [onTop_cons] at ho
    exact h x hs.1 rest out hs.2 ho

end

end Rule

end Michelson

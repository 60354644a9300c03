import Mathlib.Data.List.Forall2
import Michelson.Proofs.TypeEquality

namespace Michelson

mutual

/-- Types that differ in nothing but what is kept for diagnostics: the code and the applied arguments that a lambda
remembers, and the names of records. -/
inductive Ty.Alike : Ty → Ty → Prop where
  | unit : Ty.Alike .unit .unit
  | bool : Ty.Alike .bool .bool
  | int : Ty.Alike .int .int
  | nat : Ty.Alike .nat .nat
  | mutez : Ty.Alike .mutez .mutez
  | string : Ty.Alike .string .string
  | bytes : Ty.Alike .bytes .bytes
  | address : Ty.Alike .address .address
  | timestamp : Ty.Alike .timestamp .timestamp
  | operation : Ty.Alike .operation .operation
  | universal : Ty.Alike .universal .universal
  | var (name : String) : Ty.Alike (.var name) (.var name)
  | option {t u : Ty} : Ty.Alike t u → Ty.Alike (.option t) (.option u)
  | list {t u : Ty} : Ty.Alike t u → Ty.Alike (.list t) (.list u)
  | set {t u : Ty} : Ty.Alike t u → Ty.Alike (.set t) (.set u)
  | contract {t u : Ty} : Ty.Alike t u → Ty.Alike (.contract t) (.contract u)
  | or {l r l' r' : Ty} : Ty.Alike l l' → Ty.Alike r r' → Ty.Alike (.or l r) (.or l' r')
  | pair {l r l' r' : Ty} : Ty.Alike l l' → Ty.Alike r r' → Ty.Alike (.pair l r) (.pair l' r')
  | map {k v k' v' : Ty} : Ty.Alike k k' → Ty.Alike v v' → Ty.Alike (.map k v) (.map k' v')
  | bigMap {k v k' v' : Ty} :
    Ty.Alike k k' → Ty.Alike v v' → Ty.Alike (.bigMap k v) (.bigMap k' v')
  | lambda {f g : Lambda} :
    Ty.Alike f.arg g.arg → Ty.Alike f.ret g.ret → Ty.Alike (.lambda f) (.lambda g)
  | record {r s : Record} : FieldsAlike r.fields s.fields → Ty.Alike (.record r) (.record s)

inductive FieldsAlike : List Field → List Field → Prop where
  | nil : FieldsAlike [] []
  | cons {f g : Field} {fs gs : List Field} :
    f.name = g.name → Ty.Alike f.type g.type → FieldsAlike fs gs → FieldsAlike (f :: fs) (g :: gs)

end

mutual

theorem Ty.Alike.refl : ∀ t : Ty, t.Alike t
  | .unit => .unit
  | .bool => .bool
  | .int => .int
  | .nat => .nat
  | .mutez => .mutez
  | .string => .string
  | .bytes => .bytes
  | .address => .address
  | .timestamp => .timestamp
  | .operation => .operation
  | .universal => .universal
  | .var name => .var name
  | .option t => .option (.refl t)
  | .list t => .list (.refl t)
  | .set t => .set (.refl t)
  | .contract t => .contract (.refl t)
  | .or l r => .or (.refl l) (.refl r)
  | .pair l r => .pair (.refl l) (.refl r)
  | .map k v => .map (.refl k) (.refl v)
  | .bigMap k v => .bigMap (.refl k) (.refl v)
  | .lambda ⟨arg, ret, _, _⟩ => .lambda (.refl arg) (.refl ret)
  | .record ⟨_, fields⟩ => .record (FieldsAlike.refl fields)

theorem FieldsAlike.refl : ∀ fields : List Field, FieldsAlike fields fields
  | [] => .nil
  | ⟨_, t⟩ :: rest => .cons rfl (Ty.Alike.refl t) (FieldsAlike.refl rest)

end

mutual

theorem Ty.Alike.symm : ∀ {t u : Ty}, t.Alike u → u.Alike t
  | _, _, .unit => .unit
  | _, _, .bool => .bool
  | _, _, .int => .int
  | _, _, .nat => .nat
  | _, _, .mutez => .mutez
  | _, _, .string => .string
  | _, _, .bytes => .bytes
  | _, _, .address => .address
  | _, _, .timestamp => .timestamp
  | _, _, .operation => .operation
  | _, _, .universal => .universal
  | _, _, .var name => .var name
  | _, _, .option h => .option h.symm
  | _, _, .list h => .list h.symm
  | _, _, .set h => .set h.symm
  | _, _, .contract h => .contract h.symm
  | _, _, .or hl hr => .or hl.symm hr.symm
  | _, _, .pair hl hr => .pair hl.symm hr.symm
  | _, _, .map hk hv => .map hk.symm hv.symm
  | _, _, .bigMap hk hv => .bigMap hk.symm hv.symm
  | _, _, .lambda ha hr => .lambda ha.symm hr.symm
  | _, _, .record h => .record h.symm

theorem FieldsAlike.symm : ∀ {fs gs : List Field}, FieldsAlike fs gs → FieldsAlike gs fs
  | _, _, .nil => .nil
  | _, _, .cons hn ht hs => .cons hn.symm ht.symm hs.symm

end

mutual

theorem Ty.Alike.trans : ∀ {t u v : Ty}, t.Alike u → u.Alike v → t.Alike v
  | _, _, _, .unit, h | _, _, _, .bool, h | _, _, _, .int, h | _, _, _, .nat, h
  | _, _, _, .mutez, h | _, _, _, .string, h | _, _, _, .bytes, h | _, _, _, .address, h
  | _, _, _, .timestamp, h | _, _, _, .operation, h | _, _, _, .universal, h
  | _, _, _, .var _, h => h
  | _, _, _, .option h, .option h' => .option (h.trans h')
  | _, _, _, .list h, .list h' => .list (h.trans h')
  | _, _, _, .set h, .set h' => .set (h.trans h')
  | _, _, _, .contract h, .contract h' => .contract (h.trans h')
  | _, _, _, .or hl hr, .or hl' hr' => .or (hl.trans hl') (hr.trans hr')
  | _, _, _, .pair hl hr, .pair hl' hr' => .pair (hl.trans hl') (hr.trans hr')
  | _, _, _, .map hk hv, .map hk' hv' => .map (hk.trans hk') (hv.trans hv')
  | _, _, _, .bigMap hk hv, .bigMap hk' hv' => .bigMap (hk.trans hk') (hv.trans hv')
  | _, _, _, .lambda ha hr, .lambda ha' hr' => .lambda (ha.trans ha') (hr.trans hr')
  | _, _, _, .record h, .record h' => .record (h.trans h')

theorem FieldsAlike.trans : ∀ {fs gs hs : List Field}, FieldsAlike fs gs → FieldsAlike gs hs →
    FieldsAlike fs hs
  | _, _, _, .nil, h => h
  | _, _, _, .cons hn ht hs, .cons hn' ht' hs' =>
    .cons (hn.trans hn') (ht.trans ht') (hs.trans hs')

end

mutual

/-- Unfolding records does not tell alike types apart. -/
theorem Ty.Alike.simplify : ∀ {t u : Ty}, t.Alike u → t.simplify.Alike u.simplify
  | .record ⟨_, _⟩, .record ⟨_, _⟩, .record h => by
    rw [Ty.simplify, Ty.simplify]
    exact h.simplify
  | _, _, .pair hl hr => by
    rw [Ty.simplify, Ty.simplify]
    exact .pair hl.simplify hr.simplify
  | _, _, .unit | _, _, .bool | _, _, .int | _, _, .nat | _, _, .mutez | _, _, .string
  | _, _, .bytes | _, _, .address | _, _, .timestamp | _, _, .operation | _, _, .universal
  | _, _, .var _ => .refl _
  | _, _, .option h => .option h
  | _, _, .list h => .list h
  | _, _, .set h => .set h
  | _, _, .contract h => .contract h
  | _, _, .or hl hr => .or hl hr
  | _, _, .map hk hv => .map hk hv
  | _, _, .bigMap hk hv => .bigMap hk hv
  | _, _, .lambda ha hr => .lambda ha hr

theorem FieldsAlike.simplify : ∀ {fs gs : List Field}, FieldsAlike fs gs →
    (simplifyFields fs).Alike (simplifyFields gs)
  | _, _, .nil => .refl _
  | [⟨_, _⟩], [⟨_, _⟩], .cons _ ht .nil => by
    rw [simplifyFields, simplifyFields]
    exact ht.simplify
  | ⟨_, _⟩ :: _ :: _, ⟨_, _⟩ :: _ :: _, .cons _ ht (.cons hn ht' hs) => by
    rw [simplifyFields, simplifyFields]
    · exact .pair ht.simplify (FieldsAlike.simplify (.cons hn ht' hs))
    · simp
    · simp

end

theorem Ty.Alike.isRecord {t u : Ty} (h : t.Alike u) : t.isRecord = u.isRecord := by
  cases h <;> rfl

/-- Equality does not look at what is kept for diagnostics only. -/
theorem Ty.equals_of_alike {a b : Ty} : ∀ {a' b' : Ty}, a.Alike a' → b.Alike b' → a.equals b →
    a'.equals b' := by
  apply Ty.equals.induct
    (fun a b => ∀ {a' b' : Ty}, a.Alike a' → b.Alike b' → a.equals b → a'.equals b')
    (fun fs gs => ∀ {fs' gs' : List Field}, FieldsAlike fs fs' → FieldsAlike gs gs' →
      fieldsEqual fs gs → fieldsEqual fs' gs')
  case case1 =>
    intro b a' b' ha hb _
    cases ha
    rw [Ty.equals]
  case case2 =>
    intro a _ a' b' ha hb _
    cases hb
    exact a'.equals_universal
  case case3 =>
    intro r s ih a' b' ha hb h
    cases ha with
    | record ha =>
    cases hb with
    | record hb =>
    rw [Ty.equals] at h ⊢
    exact ih ha hb h
  case case4 =>
    intro r b _ hr ih a' b' ha hb h
    have hrec := Ty.isRecord_eq_false hr
    have hs := ha.simplify
    cases ha with
    | record ha =>
    rw [Ty.record_equals hrec] at h
    rw [Ty.record_equals (hb.isRecord ▸ hrec)]
    exact ih hs hb h
  case case5 =>
    intro a s _ hr ih a' b' ha hb h
    have hrec := Ty.isRecord_eq_false hr
    have hs := hb.simplify
    cases hb with
    | record hb =>
    rw [Ty.equals_record hrec] at h
    rw [Ty.equals_record (ha.isRecord ▸ hrec)]
    exact ih ha hs h
  case case16 | case17 | case18 | case19 =>
    intro a b ih a' b' ha hb h
    cases ha
    cases hb
    rw [Ty.equals] at h ⊢
    exact ih ‹_› ‹_› h
  case case20 | case21 | case22 | case23 =>
    intro a₁ a₂ b₁ b₂ ih₁ ih₂ a' b' ha hb h
    cases ha
    cases hb
    rw [Ty.equals, Bool.and_eq_true] at h ⊢
    exact ⟨ih₁ ‹_› ‹_› h.1, ih₂ ‹_› ‹_› h.2⟩
  case case24 =>
    intro f g ih₁ ih₂ a' b' ha hb h
    cases ha with
    | lambda ha hr =>
    cases hb with
    | lambda hb hs =>
    rw [Ty.equals, Bool.and_eq_true] at h ⊢
    exact ⟨ih₁ ha hb h.1, ih₂ hr hs h.2⟩
  case case25 =>
    intro a b a' b' ha hb h
    cases ha
    cases hb
    exact h
  case case26 =>
    intros
    simp_all [Ty.equals]
  case case27 =>
    intro fs' gs' hf hg h
    cases hf
    cases hg
    exact h
  case case28 =>
    intro f fs k ks ih ihs fs' gs' hf hg h
    cases hf with
    | cons hn ht hs =>
    cases hg with
    | cons hn' ht' hs' =>
    rw [fieldsEqual, Bool.and_eq_true, Bool.and_eq_true, beq_iff_eq] at h ⊢
    exact ⟨⟨hn ▸ hn' ▸ h.1.1, ih ht ht' h.1.2⟩, ihs hs hs' h.2⟩
  case case29 =>
    intro fs gs hn hc fs' gs' _ _ h
    rw [fieldsEqual] at h
    · cases h
    · exact hn
    · exact hc
  all_goals
    intro a' b' ha hb h
    cases ha
    cases hb
    exact h

/-- The equality of types does not tell types apart that are alike. -/
theorem Ty.Alike.equals {a b a' b' : Ty} (ha : a.Alike a') (hb : b.Alike b') :
    a.equals b = a'.equals b' :=
  Bool.eq_iff_iff.mpr ⟨Ty.equals_of_alike ha hb, Ty.equals_of_alike ha.symm hb.symm⟩

abbrev StacksAlike : List Ty → List Ty → Prop :=
  List.Forall₂ Ty.Alike

theorem StacksAlike.refl (slots : List Ty) : StacksAlike slots slots :=
  List.forall₂_same.mpr fun t _ => .refl t

theorem StacksAlike.symm {a b : List Ty} (h : StacksAlike a b) : StacksAlike b a :=
  (h.imp fun _ _ ht => ht.symm).flip

theorem StacksAlike.append {a b a' b' : List Ty} (ha : StacksAlike a a') (hb : StacksAlike b b') :
    StacksAlike (a ++ b) (a' ++ b') :=
  List.rel_append ha hb

theorem StacksAlike.trans {a b c : List Ty} (hab : StacksAlike a b) (hbc : StacksAlike b c) :
    StacksAlike a c := by
  induction hab generalizing c with
  | nil => exact hbc
  | cons ht _ ih =>
    cases hbc with
    | cons hu hs => exact .cons (ht.trans hu) (ih hs)

section

variable {α β α' β' : Type} {related : α → β → Prop} {related' : α' → β' → Prop}

theorem optionRel_map {f : α → α'} {g : β → β'} (hf : ∀ a b, related a b → related' (f a) (g b))
    {o : Option α} {o' : Option β} (h : Option.Rel related o o') :
    Option.Rel related' (o.map f) (o'.map g) := by
  cases h with
  | some h => exact .some (hf _ _ h)
  | none => exact .none

theorem optionRel_getD {o : Option α} {o' : Option β} (h : Option.Rel related o o') {a : α} {b : β}
    (hab : related a b) : related (o.getD a) (o'.getD b) := by
  cases h with
  | some h => exact h
  | none => exact hab

end

/-- Alike types make alike combs. -/
theorem Ty.Alike.comb? {ts us : List Ty} (h : StacksAlike ts us) :
    Option.Rel Ty.Alike (Ty.comb? ts) (Ty.comb? us) := by
  induction h with
  | nil => exact .none
  | cons ht hs ih =>
    cases hs with
    | nil => exact .some ht
    | cons hu hs => exact optionRel_map (fun _ _ hc => .pair ht hc) ih

theorem FieldsAlike.types : ∀ {fs gs : List Field}, FieldsAlike fs gs →
    StacksAlike (fs.map (·.type)) (gs.map (·.type))
  | _, _, .nil => .nil
  | _, _, .cons _ ht hs => .cons ht hs.types

/-- Records with alike fields stand for alike types, whatever their names. -/
theorem FieldsAlike.shape {r s : Record} (h : FieldsAlike r.fields s.fields) :
    r.shape.Alike s.shape := by
  rw [Record.shape_eq, Record.shape_eq]
  exact optionRel_getD (Ty.Alike.comb? h.types) .unit

/-- Of two alike types both or neither can be taken apart, and then into alike components. -/
theorem Ty.Alike.split? {t u : Ty} (h : t.Alike u) :
    Option.Rel (fun p q => p.1.Alike q.1 ∧ p.2.Alike q.2) t.split? u.split? := by
  cases h with
  | pair hl hr => exact .some ⟨hl, hr⟩
  | record h =>
    have hs := h.shape
    rw [Ty.split?, Ty.split?]
    generalize Record.shape _ = x at hs ⊢
    generalize Record.shape _ = y at hs ⊢
    cases hs with
    | pair hl hr => exact .some ⟨hl, hr⟩
    | _ => exact .none
  | _ => exact .none

/-- Alike types have alike components, at the same indices. -/
theorem Ty.Alike.get? : ∀ {t u : Ty} (n : Nat), t.Alike u →
    Option.Rel Ty.Alike (t.get? n) (u.get? n)
  | _, _, 0, h => by
    rw [Ty.get?, Ty.get?]
    exact .some h
  | _, _, 1, h => by
    cases h with
    | pair hl hr => exact .some hl
    | _ => exact .none
  | _, _, n + 2, h => by
    cases h with
    | pair hl hr => exact Ty.Alike.get? n hr
    | _ => exact .none

/-- Writing alike types at one index of alike types gives alike types. -/
theorem Ty.Alike.update? {new new' : Ty} (hn : new.Alike new') :
    ∀ {t u : Ty} (n : Nat), t.Alike u → Option.Rel Ty.Alike (t.update? n new) (u.update? n new')
  | _, _, 0, h => by
    rw [Ty.update?, Ty.update?]
    exact .some hn
  | _, _, 1, h => by
    cases h with
    | pair hl hr => exact .some (.pair hn hr)
    | _ => exact .none
  | _, _, n + 2, h => by
    cases h with
    | pair hl hr => exact optionRel_map (fun _ _ hc => .pair hl hc) (Ty.Alike.update? hn n hr)
    | _ => exact .none

theorem Ty.Alike.isUniversal {t u : Ty} (h : t.Alike u) : t.isUniversal = u.isUniversal := by
  cases h <;> rfl

/-- Whether two stacks are equal is not changed by slots that are alike. -/
theorem StacksAlike.slotsEqual {a b a' b' : List Ty} (ha : StacksAlike a a')
    (hb : StacksAlike b b') : slotsEqual a b = slotsEqual a' b' := by
  induction ha generalizing b b' with
  | nil => cases hb <;> rfl
  | cons ht _ ih =>
    cases hb with
    | nil => rfl
    | cons hu hs =>
      simp only [Michelson.slotsEqual, ht.isUniversal, hu.isUniversal, ht.equals hu, ih hs]

theorem StacksAlike.isDiverged {a b : List Ty} (h : StacksAlike a b) :
    isDiverged a = isDiverged b := by
  cases h with
  | nil => rfl
  | cons ht hs =>
    cases hs with
    | nil => cases ht <;> rfl
    | cons hu hs => cases ht <;> rfl

theorem StacksAlike.isUnreached {a b : List Ty} (h : StacksAlike a b) :
    Conditional.isUnreached a = Conditional.isUnreached b := by
  cases h with
  | nil => rfl
  | cons ht hs => cases ht <;> rfl

end Michelson

import Michelson.Proofs.Fragment

namespace Michelson

mutual

/-- Every type equals itself, whatever is in it. -/
theorem Ty.equals_refl : ∀ t : Ty, t.equals t
  | .record ⟨_, fields⟩ => by
    rw [Ty.equals]
    exact fieldsEqual_refl fields
  | .option t | .list t | .set t | .contract t => by
    rw [Ty.equals]
    exact t.equals_refl
  | .or l r | .pair l r | .map l r | .bigMap l r => by
    rw [Ty.equals, Bool.and_eq_true]
    exact ⟨l.equals_refl, r.equals_refl⟩
  | .lambda ⟨arg, ret, _, _⟩ => by
    rw [Ty.equals, Bool.and_eq_true]
    exact ⟨arg.equals_refl, ret.equals_refl⟩
  | .var a => by simp [Ty.equals]
  | .unit | .bool | .int | .nat | .mutez | .string | .bytes | .address | .timestamp | .operation
  | .universal => by rw [Ty.equals]

theorem fieldsEqual_refl : ∀ fields : List Field, fieldsEqual fields fields
  | [] => by rw [fieldsEqual]
  | ⟨name, t⟩ :: rest => by
    rw [fieldsEqual]
    simp [t.equals_refl, fieldsEqual_refl rest]

end

theorem slotsEqual_refl (slots : List Ty) : slotsEqual slots slots := by
  induction slots with
  | nil => rfl
  | cons t slots ih => simp [slotsEqual, t.equals_refl, ih]

section

variable {g : Fragment} (hg : g.universal = false)

include hg

theorem Ty.isUniversal_of_within {t : Ty} (h : t.within g) : t.isUniversal = false := by
  cases t with
  | universal =>
    rw [Ty.within, hg] at h
    cases h
  | _ => rfl

/-- Without `universal`, stacks of different heights are not equal. -/
theorem length_eq_of_slotsEqual {a b : List Ty} (ha : typesWithin g a) (hb : typesWithin g b)
    (h : slotsEqual a b) : a.length = b.length := by
  induction a generalizing b with
  | nil =>
    cases b with
    | nil => rfl
    | cons y b => cases h
  | cons x a ih =>
    cases b with
    | nil => cases h
    | cons y b =>
      rw [typesWithin_cons, Bool.and_eq_true] at ha hb
      simp only [slotsEqual, Ty.isUniversal_of_within hg ha.1, Ty.isUniversal_of_within hg hb.1,
        Bool.false_or, Bool.and_eq_true] at h
      rw [List.length_cons, List.length_cons, ih ha.2 hb.2 h.2]

/-- The same slots below two stacks do not change whether they are equal. -/
theorem slotsEqual_append {a b base : List Ty} (ha : typesWithin g a) (hb : typesWithin g b)
    (hbase : typesWithin g base) : slotsEqual (a ++ base) (b ++ base) = slotsEqual a b := by
  induction a generalizing b with
  | nil =>
    cases b with
    | nil => exact slotsEqual_refl base
    | cons y b =>
      refine Bool.eq_false_iff.mpr fun h => ?_
      have hyb : typesWithin g (y :: b ++ base) := by
        rw [typesWithin_append, hb, hbase]
        rfl
      have hl := length_eq_of_slotsEqual hg (by simpa using hbase) hyb h
      simp at hl
      omega
  | cons x a ih =>
    cases b with
    | nil =>
      refine Bool.eq_false_iff.mpr fun h => ?_
      have hxa : typesWithin g (x :: a ++ base) := by
        rw [typesWithin_append, ha, hbase]
        rfl
      have hl := length_eq_of_slotsEqual hg hxa (by simpa using hbase) h
      simp at hl
      omega
    | cons y b =>
      rw [typesWithin_cons, Bool.and_eq_true] at ha hb
      simp only [List.cons_append, slotsEqual, ih ha.2 hb.2]

end

mutual

/-- What a type stands for: records are unfolded at every depth, and what a lambda only remembers is forgotten. -/
def Ty.expand : Ty → Ty
  | .record ⟨_, fields⟩ => expandFields fields
  | .option t => .option t.expand
  | .or l r => .or l.expand r.expand
  | .pair l r => .pair l.expand r.expand
  | .list t => .list t.expand
  | .set t => .set t.expand
  | .map k v => .map k.expand v.expand
  | .bigMap k v => .bigMap k.expand v.expand
  | .contract t => .contract t.expand
  | .lambda ⟨arg, ret, _, _⟩ => .function arg.expand ret.expand []
  | .unit => .unit
  | .bool => .bool
  | .int => .int
  | .nat => .nat
  | .mutez => .mutez
  | .string => .string
  | .bytes => .bytes
  | .address => .address
  | .timestamp => .timestamp
  | .operation => .operation
  | .universal => .universal
  | .var name => .var name

def expandFields : List Field → Ty
  | [] => .unit
  | [⟨_, t⟩] => t.expand
  | ⟨_, t⟩ :: rest => .pair t.expand (expandFields rest)

end

theorem Ty.expand_lambda (f : Lambda) :
    (Ty.lambda f).expand = .function f.arg.expand f.ret.expand [] := by
  obtain ⟨arg, ret, body, applied⟩ := f
  rw [Ty.expand]

mutual

/-- Unfolding the records on the spine of pairs unfolds no more than all of them. -/
theorem Ty.expand_simplify : ∀ t : Ty, t.simplify.expand = t.expand
  | .record ⟨_, fields⟩ => by
    rw [Ty.simplify, Ty.expand]
    exact expand_simplifyFields fields
  | .pair l r => by
    rw [Ty.simplify, Ty.expand, Ty.expand, l.expand_simplify, r.expand_simplify]
  | .unit | .bool | .int | .nat | .mutez | .string | .bytes | .address | .timestamp | .operation
  | .option _ | .or _ _ | .list _ | .set _ | .map _ _ | .bigMap _ _ | .contract _ | .lambda _
  | .universal | .var _ => by simp [Ty.simplify]

theorem expand_simplifyFields :
    ∀ fields : List Field, (simplifyFields fields).expand = expandFields fields
  | [] => by simp [simplifyFields, expandFields, Ty.expand]
  | [⟨_, t⟩] => by
    rw [simplifyFields, expandFields]
    exact t.expand_simplify
  | ⟨_, t⟩ :: f :: rest => by
    rw [simplifyFields, expandFields, Ty.expand, t.expand_simplify, expand_simplifyFields (f :: rest)]
    · simp
    · simp

end

theorem Ty.expand_record (r : Record) : (Ty.record r).expand = expandFields r.fields := by
  obtain ⟨name, fields⟩ := r
  rw [Ty.expand]

/-- The fields of a record stand for a comb. -/
theorem expandFields_eq (fields : List Field) :
    expandFields fields = (Ty.comb? (fields.map (·.type.expand))).getD .unit := by
  induction fields with
  | nil => simp [expandFields, Ty.comb?]
  | cons f rest ih =>
    obtain ⟨name, t⟩ := f
    cases rest with
    | nil => simp [expandFields, Ty.comb?]
    | cons g gs =>
      have hs : (g :: gs).map (·.type.expand) ≠ [] := by simp
      obtain ⟨c, hc⟩ := Option.isSome_iff_exists.mp (Ty.comb?_isSome hs)
      rw [hc] at ih
      rw [List.map_cons, Ty.comb?, hc, expandFields, ih]
      · simp
      · simp
      · simp

theorem fieldsWithin_of_record {g : Fragment} {r : Record} (h : (Ty.record r).within g) :
    fieldsWithin g r.fields := by
  obtain ⟨name, fields⟩ := r
  rw [Ty.within, Bool.and_eq_true] at h
  exact h.2

/-- Equal types stand for the same type. -/
theorem Ty.expand_eq_of_equals {g : Fragment} (hg : g.universal = false) {a b : Ty} :
    a.within g → b.within g → a.equals b → a.expand = b.expand := by
  apply Ty.equals.induct
    (fun a b => a.within g → b.within g → a.equals b → a.expand = b.expand)
    (fun fs gs => fieldsWithin g fs → fieldsWithin g gs → fieldsEqual fs gs →
      fs.map (·.type.expand) = gs.map (·.type.expand))
  case case1 =>
    intro b ha
    cases Ty.isUniversal_of_within hg ha
  case case2 =>
    intro a _ _ hb
    cases Ty.isUniversal_of_within hg hb
  -- two records: field by field, and then their combs are the same
  case case3 =>
    intro r s ih ha hb h
    rw [Ty.equals] at h
    rw [Ty.expand_record, Ty.expand_record, expandFields_eq, expandFields_eq,
      ih (fieldsWithin_of_record ha) (fieldsWithin_of_record hb) h]
  -- a record against a type that is none: the record is unfolded first
  case case4 =>
    intro r b hu hr ih ha hb h
    rw [Ty.equals] at h
    · rw [← Ty.expand_simplify]
      exact ih (Ty.within_simplify ha) hb h
    · exact hu
    · exact hr
  case case5 =>
    intro a s hu hr ih ha hb h
    rw [Ty.equals] at h
    · rw [← Ty.expand_simplify (.record s)]
      exact ih ha (Ty.within_simplify hb) h
    · exact hu
    · exact hr
  case case16 | case17 | case18 | case19 =>
    intro a b ih ha hb h
    rw [Ty.equals] at h
    rw [Ty.within] at ha hb
    rw [Ty.expand, Ty.expand, ih ha hb h]
  case case20 | case21 | case22 | case23 =>
    intro a₁ a₂ b₁ b₂ ih₁ ih₂ ha hb h
    rw [Ty.equals, Bool.and_eq_true] at h
    rw [Ty.within, Bool.and_eq_true] at ha hb
    rw [Ty.expand, Ty.expand, ih₁ ha.1 hb.1 h.1, ih₂ ha.2 hb.2 h.2]
  case case24 =>
    intro f k ih₁ ih₂ ha hb h
    rw [Ty.equals, Bool.and_eq_true] at h
    simp only [Ty.within_lambda, Bool.and_eq_true] at ha hb
    rw [Ty.expand_lambda, Ty.expand_lambda, ih₁ ha.1.1 hb.1.1 h.1, ih₂ ha.1.2 hb.1.2 h.2]
  case case25 =>
    intro a b ha hb h
    simp only [Ty.equals, beq_iff_eq] at h
    rw [h]
  -- no two constructors that differ are equal
  case case26 =>
    intros
    simp_all [Ty.equals]
  case case27 => exact fun _ _ _ => rfl
  case case28 =>
    intro f fs k ks ih ihs hf hk h
    obtain ⟨name, t⟩ := f
    obtain ⟨name', u⟩ := k
    simp only [fieldsEqual, Bool.and_eq_true] at h
    rw [fieldsWithin, Bool.and_eq_true] at hf hk
    rw [List.map_cons, List.map_cons, ih hf.1 hk.1 h.1.2, ihs hf.2 hk.2 h.2]
  case case29 =>
    intro fs gs hn hc _ _ h
    rw [fieldsEqual] at h
    · cases h
    · exact hn
    · exact hc
  all_goals exact fun _ _ _ => rfl

def Ty.isRecord : Ty → Bool
  | .record _ => true
  | _ => false

mutual

/-- Unfolding leaves no record at the root. -/
theorem Ty.isRecord_simplify : ∀ t : Ty, t.simplify.isRecord = false
  | .record ⟨_, fields⟩ => by
    rw [Ty.simplify]
    exact isRecord_simplifyFields fields
  | .pair l r => by
    rw [Ty.simplify]
    rfl
  | .unit | .bool | .int | .nat | .mutez | .string | .bytes | .address | .timestamp | .operation
  | .option _ | .or _ _ | .list _ | .set _ | .map _ _ | .bigMap _ _ | .contract _ | .lambda _
  | .universal | .var _ => rfl

theorem isRecord_simplifyFields : ∀ fields : List Field, (simplifyFields fields).isRecord = false
  | [] => rfl
  | [⟨_, t⟩] => by
    rw [simplifyFields]
    exact t.isRecord_simplify
  | ⟨_, t⟩ :: f :: rest => by
    rw [simplifyFields]
    · rfl
    · simp

end

theorem Ty.isRecord_eq_false {t : Ty} (h : ∀ r, t ≠ .record r) : t.isRecord = false := by
  cases t with
  | record r => exact absurd rfl (h r)
  | _ => rfl

theorem Ty.equals_universal (a : Ty) : a.equals .universal := by
  cases a <;> rw [Ty.equals] <;> simp

/-- Against a type that is no record, a record counts as what it stands for. -/
theorem Ty.record_equals {b : Ty} (hb : b.isRecord = false) (r : Record) :
    (Ty.record r).equals b = (Ty.record r).simplify.equals b := by
  cases b with
  | universal => rw [Ty.equals_universal, Ty.equals_universal]
  | record => cases hb
  | _ => rw [Ty.equals] <;> simp

theorem Ty.equals_record {a : Ty} (ha : a.isRecord = false) (r : Record) :
    a.equals (.record r) = a.equals (Ty.record r).simplify := by
  cases a with
  | universal => rw [Ty.equals, Ty.equals]
  | record => cases ha
  | _ => rw [Ty.equals] <;> simp

theorem Ty.equals_symm {a b : Ty} : a.equals b → b.equals a := by
  apply Ty.equals.induct (fun a b => a.equals b → b.equals a)
    (fun fs gs => fieldsEqual fs gs → fieldsEqual gs fs)
  case case1 =>
    intro b _
    exact b.equals_universal
  case case2 =>
    intro a _ _
    rw [Ty.equals]
  case case3 =>
    intro r s ih h
    rw [Ty.equals] at h ⊢
    exact ih h
  -- the two rules for a record on one side only are each other's mirror
  case case4 =>
    intro r b _ hr ih h
    have hb := Ty.isRecord_eq_false hr
    rw [Ty.record_equals hb] at h
    rw [Ty.equals_record hb]
    exact ih h
  case case5 =>
    intro a s _ hr ih h
    have ha := Ty.isRecord_eq_false hr
    rw [Ty.equals_record ha] at h
    rw [Ty.record_equals ha]
    exact ih h
  case case16 | case17 | case18 | case19 =>
    intro a b ih h
    rw [Ty.equals] at h ⊢
    exact ih h
  case case20 | case21 | case22 | case23 =>
    intro a₁ a₂ b₁ b₂ ih₁ ih₂ h
    rw [Ty.equals, Bool.and_eq_true] at h ⊢
    exact ⟨ih₁ h.1, ih₂ h.2⟩
  case case24 =>
    intro f g ih₁ ih₂ h
    rw [Ty.equals, Bool.and_eq_true] at h ⊢
    exact ⟨ih₁ h.1, ih₂ h.2⟩
  case case25 =>
    intro a b h
    rw [Ty.equals, beq_iff_eq] at h ⊢
    exact h.symm
  case case26 =>
    intros
    simp_all [Ty.equals]
  case case28 =>
    intro f fs k ks ih ihs h
    rw [fieldsEqual, Bool.and_eq_true, Bool.and_eq_true, beq_iff_eq] at h ⊢
    exact ⟨⟨h.1.1.symm, ih h.1.2⟩, ihs h.2⟩
  case case29 =>
    intro fs gs hn hc h
    rw [fieldsEqual] at h
    · cases h
    · exact hn
    · exact hc
  all_goals exact id

mutual

/-- Nothing is left to unfold in what a type stands for. -/
theorem Ty.simplify_simplify : ∀ t : Ty, t.simplify.simplify = t.simplify
  | .record ⟨_, fields⟩ => by
    rw [Ty.simplify]
    exact simplify_simplifyFields fields
  | .pair l r => by
    rw [Ty.simplify, Ty.simplify, l.simplify_simplify, r.simplify_simplify]
  | .unit | .bool | .int | .nat | .mutez | .string | .bytes | .address | .timestamp | .operation
  | .option _ | .or _ _ | .list _ | .set _ | .map _ _ | .bigMap _ _ | .contract _ | .lambda _
  | .universal | .var _ => rfl

theorem simplify_simplifyFields :
    ∀ fields : List Field, (simplifyFields fields).simplify = simplifyFields fields
  | [] => rfl
  | [⟨_, t⟩] => by
    rw [simplifyFields]
    exact t.simplify_simplify
  | ⟨_, t⟩ :: f :: rest => by
    rw [simplifyFields, Ty.simplify, t.simplify_simplify, simplify_simplifyFields (f :: rest)]
    simp

end

/-- Types that are equal stand for types that are equal. -/
theorem Ty.simplify_equals_simplify {a b : Ty} : a.equals b → a.simplify.equals b.simplify := by
  apply Ty.equals.induct (fun a b => a.equals b → a.simplify.equals b.simplify)
    (fun fs gs => fieldsEqual fs gs → (simplifyFields fs).equals (simplifyFields gs))
  case case1 =>
    intro b _
    rw [Ty.simplify, Ty.equals]
    all_goals simp
  case case2 =>
    intro a _ _
    exact Ty.equals_universal _
  case case3 =>
    intro r s ih h
    obtain ⟨_, fs⟩ := r
    obtain ⟨_, gs⟩ := s
    rw [Ty.equals] at h
    rw [Ty.simplify, Ty.simplify]
    exact ih h
  case case4 =>
    intro r b _ hr ih h
    rw [Ty.record_equals (Ty.isRecord_eq_false hr)] at h
    rw [← Ty.simplify_simplify]
    exact ih h
  case case5 =>
    intro a s _ hr ih h
    rw [Ty.equals_record (Ty.isRecord_eq_false hr)] at h
    rw [← Ty.simplify_simplify (.record s)]
    exact ih h
  case case21 =>
    intro a₁ a₂ b₁ b₂ ih₁ ih₂ h
    rw [Ty.equals, Bool.and_eq_true] at h
    rw [Ty.simplify, Ty.simplify, Ty.equals, Bool.and_eq_true]
    exact ⟨ih₁ h.1, ih₂ h.2⟩
  -- below any other constructor there is nothing to unfold
  case case16 | case17 | case18 | case19 => exact fun _ _ _ h => h
  case case20 | case22 | case23 => exact fun _ _ _ _ _ _ h => h
  case case24 => exact fun _ _ _ _ h => h
  case case25 => exact fun _ _ h => h
  case case26 =>
    intros
    simp_all [Ty.equals]
  case case27 => exact fun _ => Ty.equals_refl .unit
  case case28 =>
    intro f fs k ks ih ihs h
    obtain ⟨name, t⟩ := f
    obtain ⟨name', u⟩ := k
    rw [fieldsEqual, Bool.and_eq_true, Bool.and_eq_true] at h
    have ht := ih h.1.2
    have hs := ihs h.2
    cases fs with
    | nil =>
      cases ks with
      | nil => rwa [simplifyFields, simplifyFields]
      | cons k ks => simp [fieldsEqual] at h
    | cons f fs =>
      cases ks with
      | nil => simp [fieldsEqual] at h
      | cons k ks =>
        simp only [simplifyFields]
        rw [Ty.equals, Bool.and_eq_true]
        exact ⟨ht, hs⟩
  case case29 =>
    intro fs gs hn hc h
    rw [fieldsEqual] at h
    · cases h
    · exact hn
    · exact hc
  all_goals exact id

/-- Types that are no records decide whether a type equals one that is none. -/
theorem Ty.equals_of_unfolded {a b : Ty} (hb : b.isRecord = false) (hab : a.expand = b.expand)
    (h : ∀ u : Ty, u.isRecord = false → u.expand = b.expand → u.equals b) : a.equals b := by
  cases ha : a.isRecord with
  | false => exact h a ha hab
  | true =>
    cases a with
    | record r =>
      rw [Ty.record_equals hb]
      exact h _ (Ty.isRecord_simplify _) ((Ty.expand_simplify _).trans hab)
    | _ => cases ha

/-- Types that stand for the same type are equal, as long as one of them has no records. -/
theorem Ty.equals_of_expand_eq : ∀ {b : Ty}, b.within Fragment.noRecord.outer →
    ∀ {a : Ty}, a.expand = b.expand → a.equals b
  | .universal, _, a, _ => by
    by_cases ha : a = .universal
    · rw [ha, Ty.equals]
    · rw [Ty.equals]
      exact ha
  | .record ⟨_, _⟩, hb, _, _ => by
    rw [Ty.within, Bool.and_eq_true] at hb
    cases hb.1
  | .option t, hb, a, h | .list t, hb, a, h | .set t, hb, a, h | .contract t, hb, a, h => by
    refine Ty.equals_of_unfolded rfl h fun u hu h => ?_
    rw [Ty.within] at hb
    cases u <;> simp only [Ty.isRecord, Bool.true_eq_false] at hu <;>
      simp only [Ty.expand, Ty.expand_lambda, Ty.function, reduceCtorEq, Ty.option.injEq,
        Ty.list.injEq, Ty.set.injEq, Ty.contract.injEq] at h
    rw [Ty.equals]
    exact Ty.equals_of_expand_eq hb h
  | .or l r, hb, a, h | .pair l r, hb, a, h | .map l r, hb, a, h | .bigMap l r, hb, a, h => by
    refine Ty.equals_of_unfolded rfl h fun u hu h => ?_
    rw [Ty.within, Bool.and_eq_true] at hb
    cases u <;> simp only [Ty.isRecord, Bool.true_eq_false] at hu <;>
      simp only [Ty.expand, Ty.expand_lambda, Ty.function, reduceCtorEq, Ty.or.injEq,
        Ty.pair.injEq, Ty.map.injEq, Ty.bigMap.injEq] at h
    rw [Ty.equals, Bool.and_eq_true]
    exact ⟨Ty.equals_of_expand_eq hb.1 h.1, Ty.equals_of_expand_eq hb.2 h.2⟩
  | .lambda ⟨arg, ret, body, applied⟩, hb, a, h => by
    refine Ty.equals_of_unfolded rfl h fun u hu h => ?_
    rw [Ty.within, Bool.and_eq_true, Bool.and_eq_true] at hb
    cases u <;> simp only [Ty.isRecord, Bool.true_eq_false] at hu <;>
      simp only [Ty.expand, Ty.expand_lambda, Ty.function, reduceCtorEq, Ty.lambda.injEq,
        Lambda.mk.injEq, and_true] at h
    rw [Ty.equals, Bool.and_eq_true]
    exact ⟨Ty.equals_of_expand_eq hb.1.1 h.1, Ty.equals_of_expand_eq hb.1.2 h.2⟩
  | .var name, hb, a, h => by
    refine Ty.equals_of_unfolded rfl h fun u hu h => ?_
    cases u <;> simp only [Ty.isRecord, Bool.true_eq_false] at hu <;>
      simp only [Ty.expand, Ty.expand_lambda, Ty.function, reduceCtorEq, Ty.var.injEq] at h
    rw [Ty.equals, beq_iff_eq]
    exact h
  | .unit, _, a, h | .bool, _, a, h | .int, _, a, h | .nat, _, a, h | .mutez, _, a, h
  | .string, _, a, h | .bytes, _, a, h | .address, _, a, h | .timestamp, _, a, h
  | .operation, _, a, h => by
    refine Ty.equals_of_unfolded rfl h fun u hu h => ?_
    cases u <;> simp only [Ty.isRecord, Bool.true_eq_false] at hu <;>
      simp only [Ty.expand, Ty.expand_lambda, Ty.function, reduceCtorEq] at h
    rw [Ty.equals]

/-- Equal types stand for the same type. Types that stand for the same type are equal, unless both have records. What a
lambda only remembers is not restricted. -/
theorem equality_by_shape (a b : Ty) (ha : a.within Fragment.noUniversal.outer)
    (hb : b.within Fragment.noUniversal.outer) :
    (a.equals b → a.expand = b.expand) ∧
    (a.within Fragment.noRecord.outer ∨ b.within Fragment.noRecord.outer →
      a.expand = b.expand → a.equals b) := by
  refine ⟨Ty.expand_eq_of_equals rfl ha hb, fun hrec h => ?_⟩
  rcases hrec with hrec | hrec
  · exact Ty.equals_symm (Ty.equals_of_expand_eq hrec h.symm)
  · exact Ty.equals_of_expand_eq hrec h

/-- A record with an empty record, one of a single field and a record below a list, against its comb; and the same comb
with one component changed. -/
theorem equality_by_shape_nested :
    let inner : Ty := .record ⟨"inner", [⟨"n", .nat⟩]⟩
    let outer : Ty := .record ⟨"outer", [⟨"none", .record ⟨"none", []⟩⟩, ⟨"inner", inner⟩,
      ⟨"all", .list inner⟩]⟩
    (Ty.pair .unit (.pair .nat (.list .nat))).equals outer ∧
      ¬(Ty.pair .unit (.pair .nat (.set .nat))).equals outer := by
  intro inner outer
  refine ⟨(equality_by_shape _ outer rfl rfl).2 (.inl rfl) rfl, fun h => ?_⟩
  have hshape := (equality_by_shape _ outer rfl rfl).1 h
  cases hshape

end Michelson

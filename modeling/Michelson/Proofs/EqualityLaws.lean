import Michelson.Proofs.TypeEquality

namespace Michelson

/-- The types that are reached through pairs only, the type itself among them. -/
inductive Ty.OnSpine (u : Ty) : Ty → Prop
  | root : OnSpine u u
  | left {l : Ty} (r : Ty) : OnSpine u l → OnSpine u (.pair l r)
  | right (l : Ty) {r : Ty} : OnSpine u r → OnSpine u (.pair l r)

theorem Ty.OnSpine.isRecord_eq_false {t u : Ty} (h : OnSpine u t) (ht : t.simplify = t) :
    u.isRecord = false := by
  induction h with
  | root =>
    rw [← ht]
    exact Ty.isRecord_simplify u
  | left r _ ih =>
    rw [Ty.simplify, Ty.pair.injEq] at ht
    exact ih ht.1
  | right l _ ih =>
    rw [Ty.simplify, Ty.pair.injEq] at ht
    exact ih ht.2

theorem Ty.exists_of_isRecord {t : Ty} (h : t.isRecord) : ∃ r, t = .record r := by
  cases t with
  | record r => exact ⟨r, rfl⟩
  | _ => cases h

/-- A record equals the type that another stands for, if it equals that. -/
theorem Ty.record_equals_simplify {r : Record} {b : Ty} (h : (Ty.record r).equals b) :
    (Ty.record r).equals b.simplify := by
  rw [Ty.record_equals b.isRecord_simplify]
  exact Ty.simplify_equals_simplify h

/-- A type equals what every type that it equals stands for. -/
theorem Ty.equals_simplify : ∀ {b a : Ty}, a.equals b → a.equals b.simplify
  | .record s, a, h => by
    cases ha : a.isRecord with
    | false => rwa [Ty.equals_record ha] at h
    | true =>
      obtain ⟨r, rfl⟩ := Ty.exists_of_isRecord ha
      exact Ty.record_equals_simplify h
  | .pair l r, a, h => by
    cases a with
    | universal => rw [Ty.equals]
    | record s => exact Ty.record_equals_simplify h
    | pair a₁ a₂ =>
      rw [Ty.equals, Bool.and_eq_true] at h
      rw [Ty.simplify, Ty.equals, Bool.and_eq_true]
      exact ⟨Ty.equals_simplify h.1, Ty.equals_simplify h.2⟩
    | _ => simp [Ty.equals] at h
  | .unit, _, h | .bool, _, h | .int, _, h | .nat, _, h | .mutez, _, h | .string, _, h
  | .bytes, _, h | .address, _, h | .timestamp, _, h | .operation, _, h | .option _, _, h
  | .or _ _, _, h | .list _, _, h | .set _, _, h | .map _ _, _, h | .bigMap _ _, _, h
  | .contract _, _, h | .lambda _, _, h | .universal, _, h | .var _, _, h => h

/-- The equality of types is reflexive and symmetric. A type equals what it stands for, in which nothing is left to
unfold at the root or below pairs, and equality is kept when one side or both are replaced by what they stand for. -/
theorem equality_laws (a b : Ty) :
    a.equals a ∧ a.equals b = b.equals a ∧
    a.simplify.simplify = a.simplify ∧ (∀ r, ¬Ty.OnSpine (.record r) a.simplify) ∧
    a.equals a.simplify ∧
    (a.equals b → a.simplify.equals b.simplify ∧ a.equals b.simplify) := by
  refine ⟨a.equals_refl, ?_, a.simplify_simplify, fun r hr => ?_, ?_, fun h => ⟨?_, ?_⟩⟩
  · rw [Bool.eq_iff_iff]
    exact ⟨Ty.equals_symm, Ty.equals_symm⟩
  · cases hr.isRecord_eq_false a.simplify_simplify
  · exact Ty.equals_simplify a.equals_refl
  · exact Ty.simplify_equals_simplify h
  · exact Ty.equals_simplify h

/-- A record with `universal` in it, against a pair with a record of a single field in it. -/
theorem equality_laws_universal :
    let account : Ty := .record ⟨"account", [⟨"owner", .universal⟩, ⟨"held", .list .nat⟩]⟩
    let held : Ty := .pair .address (.record ⟨"held", [⟨"all", .list .nat⟩]⟩)
    account.equals held ∧ account.equals held.simplify ∧ held.equals account ∧
      account.simplify.equals held.simplify := by
  intro account held
  have hequals : account.equals held := by
    simp only [account, held]
    cbv
  obtain ⟨-, hsymm, -, -, -, hkeeps⟩ := equality_laws account held
  obtain ⟨hboth, hright⟩ := hkeeps hequals
  exact ⟨hequals, hright, hsymm ▸ hequals, hboth⟩

mutual

/-- Whether records that face each other when two types are compared have the same names of fields, in the same order. -/
def Ty.namesAgree (a b : Ty) : Bool :=
  match a, b with
  | .universal, _ | _, .universal => true
  | .record r, .record s => fieldNamesAgree r.fields s.fields
  | .record r, b => (Ty.record r).simplify.namesAgree b
  | a, .record s => a.namesAgree (Ty.record s).simplify
  | .option a, .option b | .list a, .list b | .set a, .set b | .contract a, .contract b =>
    a.namesAgree b
  | .or a₁ a₂, .or b₁ b₂ | .pair a₁ a₂, .pair b₁ b₂ => a₁.namesAgree b₁ && a₂.namesAgree b₂
  | .map a₁ a₂, .map b₁ b₂ | .bigMap a₁ a₂, .bigMap b₁ b₂ => a₁.namesAgree b₁ && a₂.namesAgree b₂
  | .lambda f, .lambda g => f.arg.namesAgree g.arg && f.ret.namesAgree g.ret
  | _, _ => true
termination_by a.weight + b.weight
decreasing_by
  · simp only [Ty.weight_record]
    omega
  · have := Ty.weight_simplify_record r
    omega
  · have := Ty.weight_simplify_record s
    omega
  all_goals
    simp only [Ty.weight, Ty.weight_lambda]
    omega

def fieldNamesAgree (fs gs : List Field) : Bool :=
  match fs, gs with
  | [], [] => true
  | f :: fs, g :: gs => f.name == g.name && f.type.namesAgree g.type && fieldNamesAgree fs gs
  | _, _ => false
termination_by fieldsWeight fs + fieldsWeight gs
decreasing_by
  all_goals
    simp only [fieldsWeight_cons]
    omega

end

theorem Ty.namesAgree_universal (a : Ty) : a.namesAgree .universal := by
  cases a <;> rw [Ty.namesAgree] <;> simp

/-- A comb determines its components, once it is known how many there are. -/
theorem Ty.comb?_injective {as bs : List Ty} (hl : as.length = bs.length)
    (h : (Ty.comb? as).getD .unit = (Ty.comb? bs).getD .unit) : as = bs := by
  induction as generalizing bs with
  | nil =>
    cases bs with
    | nil => rfl
    | cons b bs => cases hl
  | cons a as ih =>
    cases bs with
    | nil => cases hl
    | cons b bs =>
      rw [List.length_cons, List.length_cons, Nat.succ_inj] at hl
      cases as with
      | nil =>
        obtain rfl := List.length_eq_zero_iff.mp hl.symm
        exact congrArg (· :: []) h
      | cons a' as =>
        obtain ⟨b', bs, rfl⟩ := List.exists_cons_of_length_eq_add_one hl.symm
        obtain ⟨c, hc⟩ := Option.isSome_iff_exists.mp (Ty.comb?_isSome (List.cons_ne_nil a' as))
        obtain ⟨d, hd⟩ := Option.isSome_iff_exists.mp (Ty.comb?_isSome (List.cons_ne_nil b' bs))
        simp only [Ty.comb?, hc, hd, Option.map_some, Option.getD_some, Ty.pair.injEq] at h
        rw [h.1, ih hl (by simp [hc, hd, h.2])]

/-- Unfolding what is below a type that is no record does not change its kind. -/
theorem Ty.ctorIdx_expand {t : Ty} (h : t.isRecord = false) : t.expand.ctorIdx = t.ctorIdx := by
  cases t with
  | record r => cases h
  | lambda f =>
    rw [Ty.expand_lambda]
    rfl
  | _ => rfl

/-- Against a type that is no record, the names in a record are those of what it stands for. -/
theorem Ty.record_namesAgree {b : Ty} (hb : b.isRecord = false) (r : Record) :
    (Ty.record r).namesAgree b = (Ty.record r).simplify.namesAgree b := by
  cases b with
  | universal => rw [Ty.namesAgree_universal, Ty.namesAgree_universal]
  | record => cases hb
  | _ => rw [Ty.namesAgree] <;> simp

theorem Ty.namesAgree_record {a : Ty} (ha : a.isRecord = false) (r : Record) :
    a.namesAgree (.record r) = a.namesAgree (Ty.record r).simplify := by
  cases a with
  | universal => rw [Ty.namesAgree, Ty.namesAgree]
  | record => cases ha
  | _ => rw [Ty.namesAgree] <;> simp

/-- Records with different numbers of fields are not equal, and the names of their fields do not agree. -/
theorem fieldsEqual_of_length_ne {fs gs : List Field} (h : fs.length ≠ gs.length) :
    fieldsEqual fs gs = false ∧ fieldNamesAgree fs gs = false := by
  induction fs generalizing gs with
  | nil =>
    cases gs with
    | nil => exact absurd rfl h
    | cons g gs => simp [fieldsEqual, fieldNamesAgree]
  | cons f fs ih =>
    cases gs with
    | nil => simp [fieldsEqual, fieldNamesAgree]
    | cons g gs =>
      obtain ⟨hequal, hnames⟩ := ih fun hl => h (congrArg (· + 1) hl)
      rw [fieldsEqual, fieldNamesAgree, hequal, hnames, Bool.and_false, Bool.and_false]
      exact ⟨rfl, rfl⟩

/-- Between types below a weight that stand for the same type, equality is a matter of the names of fields. -/
def NamesDecide (n : Nat) : Prop :=
  ∀ a b : Ty, a.weight + b.weight < n → a.expand = b.expand → a.equals b = a.namesAgree b

namespace NamesDecide

variable {n : Nat} (ih : NamesDecide n)

include ih

theorem fields {fs gs : List Field} (hw : fieldsWeight fs + fieldsWeight gs < n)
    (h : fs.map (·.type.expand) = gs.map (·.type.expand)) :
    fieldsEqual fs gs = fieldNamesAgree fs gs := by
  induction fs generalizing gs with
  | nil =>
    cases gs with
    | nil => rw [fieldsEqual, fieldNamesAgree]
    | cons g gs => cases h
  | cons f fs ihs =>
    cases gs with
    | nil => cases h
    | cons g gs =>
      rw [fieldsWeight_cons, fieldsWeight_cons] at hw
      rw [List.map_cons, List.map_cons, List.cons.injEq] at h
      rw [fieldsEqual, fieldNamesAgree, ih _ _ (by omega) h.1, ihs (by omega) h.2]

/-- Records that stand for the same type, by their fields. -/
theorem records {r s : Record} (hw : (Ty.record r).weight + (Ty.record s).weight < n + 1)
    (h : (Ty.record r).expand = (Ty.record s).expand) :
    (Ty.record r).equals (.record s) = (Ty.record r).namesAgree (.record s) := by
  rw [Ty.equals, Ty.namesAgree]
  by_cases hl : r.fields.length = s.fields.length
  · rw [Ty.weight_record, Ty.weight_record] at hw
    rw [Ty.expand_record, Ty.expand_record, expandFields_eq, expandFields_eq] at h
    apply ih.fields (by omega)
    apply Ty.comb?_injective _ h
    rw [List.length_map, List.length_map, hl]
  · obtain ⟨hequal, hnames⟩ := fieldsEqual_of_length_ne hl
    rw [hequal, hnames]

/-- Types that are no records and stand for the same type are of the same kind, so their components face each other. -/
theorem components {a b : Ty} (hw : a.weight + b.weight < n + 1) (ha : a.isRecord = false)
    (hb : b.isRecord = false) (h : a.expand = b.expand) : a.equals b = a.namesAgree b := by
  have hkind : a.ctorIdx = b.ctorIdx := by
    rw [← Ty.ctorIdx_expand ha, h, Ty.ctorIdx_expand hb]
  -- of all pairs of kinds only those of a kind with itself are left
  cases a <;> cases b <;> cases hkind
  case option.option.refl | list.list.refl | set.set.refl | contract.contract.refl =>
    simp only [Ty.weight] at hw
    simp only [Ty.expand, Ty.option.injEq, Ty.list.injEq, Ty.set.injEq, Ty.contract.injEq] at h
    rw [Ty.equals, Ty.namesAgree, ih _ _ (by omega) h]
  case or.or.refl | pair.pair.refl | map.map.refl | bigMap.bigMap.refl =>
    simp only [Ty.weight] at hw
    simp only [Ty.expand, Ty.or.injEq, Ty.pair.injEq, Ty.map.injEq, Ty.bigMap.injEq] at h
    rw [Ty.equals, Ty.namesAgree, ih _ _ (by omega) h.1, ih _ _ (by omega) h.2]
  case lambda.lambda.refl =>
    simp only [Ty.weight_lambda] at hw
    simp only [Ty.expand_lambda, Ty.function, Ty.lambda.injEq, Lambda.mk.injEq, and_true] at h
    rw [Ty.equals, Ty.namesAgree, ih _ _ (by omega) h.1, ih _ _ (by omega) h.2]
  case var.var.refl =>
    simp only [Ty.expand, Ty.var.injEq] at h
    simp [Ty.equals, Ty.namesAgree, h]
  case record.record.refl => cases ha
  all_goals simp [Ty.equals, Ty.namesAgree]

end NamesDecide

/-- Whatever their weight, the names of fields decide between types that stand for the same: by induction on the weight.
-/
theorem namesDecide (n : Nat) : NamesDecide n := by
  induction n with
  | zero =>
    intro a b hw
    cases hw
  | succ n ih =>
    intro a b hw h
    cases ha : a.isRecord with
    | false =>
      cases hb : b.isRecord with
      | false => exact ih.components hw ha hb h
      | true =>
        obtain ⟨s, rfl⟩ := Ty.exists_of_isRecord hb
        have hlt := Ty.weight_simplify_record s
        rw [Ty.equals_record ha, Ty.namesAgree_record ha]
        exact ih a _ (by omega) (h.trans (Ty.expand_simplify _).symm)
    | true =>
      obtain ⟨r, rfl⟩ := Ty.exists_of_isRecord ha
      cases hb : b.isRecord with
      | false =>
        have hlt := Ty.weight_simplify_record r
        rw [Ty.record_equals hb, Ty.record_namesAgree hb]
        exact ih _ b (by omega) ((Ty.expand_simplify _).trans h)
      | true =>
        obtain ⟨s, rfl⟩ := Ty.exists_of_isRecord hb
        exact ih.records hw h

/-- Between types that stand for the same type, equality is a matter of the names of fields. -/
theorem Ty.equals_eq_namesAgree {a b : Ty} (h : a.expand = b.expand) :
    a.equals b = a.namesAgree b :=
  namesDecide _ a b (Nat.lt_succ_self _) h

/-- Where `universal` does not occur, types are equal exactly if they stand for the same type and the names of fields
agree. -/
theorem Ty.equals_iff_expand_eq {g : Fragment} (hg : g.universal = false) {a b : Ty}
    (ha : a.within g) (hb : b.within g) :
    a.equals b ↔ a.expand = b.expand ∧ a.namesAgree b := by
  constructor
  · intro h
    have hexpand := Ty.expand_eq_of_equals hg ha hb h
    rw [Ty.equals_eq_namesAgree hexpand] at h
    exact ⟨hexpand, h⟩
  · rintro ⟨hexpand, hn⟩
    rwa [Ty.equals_eq_namesAgree hexpand]

/-- A pair equals two records with different names of fields, which are not equal to each other. -/
theorem equality_not_transitive :
    let point : Ty := .record ⟨"point", [⟨"x", .int⟩, ⟨"y", .int⟩]⟩
    let pair : Ty := .pair .int .int
    let segment : Ty := .record ⟨"segment", [⟨"from", .int⟩, ⟨"to", .int⟩]⟩
    point.within .noUniversal ∧ pair.within .noUniversal ∧ segment.within .noUniversal ∧
      point.equals pair ∧ pair.equals segment ∧ ¬point.equals segment := by
  intro point pair segment
  refine ⟨rfl, rfl, rfl, ?_, ?_, ?_⟩
  · simp only [point, pair]
    cbv
  · simp only [pair, segment]
    cbv
  · simp only [point, segment, Bool.not_eq_true]
    cbv

/-- Where `universal` does not occur, types that equal the same type stand for the same type. They are equal to each
other exactly if the names of fields agree wherever records of both face each other, so in any case if one of them has no
records. -/
theorem equality_transitive_up_to_names (a b c : Ty) (ha : a.within Fragment.noUniversal.outer)
    (hb : b.within Fragment.noUniversal.outer) (hc : c.within Fragment.noUniversal.outer)
    (hab : a.equals b) (hbc : b.equals c) :
    a.expand = c.expand ∧ (a.equals c ↔ a.namesAgree c) ∧
    (a.within Fragment.noRecord.outer ∨ c.within Fragment.noRecord.outer → a.equals c) := by
  obtain ⟨hshape, -⟩ := (Ty.equals_iff_expand_eq rfl ha hb).mp hab
  obtain ⟨hshape', -⟩ := (Ty.equals_iff_expand_eq rfl hb hc).mp hbc
  have hexpand := hshape.trans hshape'
  refine ⟨hexpand, ?_, fun hrec => ?_⟩
  · rw [Ty.equals_iff_expand_eq rfl ha hc]
    exact and_iff_right hexpand
  · rcases hrec with hrec | hrec
    · exact Ty.equals_symm (Ty.equals_of_expand_eq hrec hexpand.symm)
    · exact Ty.equals_of_expand_eq hrec hexpand

/-- A record that has records in a list and one of another name and the same field names, by way of the pair that both
stand for. -/
theorem equality_transitive_up_to_names_renamed :
    let amount : Ty := .record ⟨"amount", [⟨"n", .nat⟩]⟩
    let account : Ty := .record ⟨"account", [⟨"owner", .address⟩, ⟨"held", .list amount⟩]⟩
    let pair : Ty := .pair .address (.list .nat)
    let wallet : Ty := .record ⟨"wallet", [⟨"owner", .address⟩, ⟨"held", .list .nat⟩]⟩
    account.equals pair ∧ pair.equals wallet ∧ account.equals wallet := by
  intro amount account pair wallet
  have haccount : account.equals pair := by
    simp only [account, pair, amount]
    cbv
  have hwallet : pair.equals wallet := by
    simp only [pair, wallet]
    cbv
  have hnames : account.namesAgree wallet := by
    simp only [account, wallet, amount]
    cbv
  obtain ⟨-, hiff, -⟩ :=
    equality_transitive_up_to_names account pair wallet rfl rfl rfl haccount hwallet
  exact ⟨haccount, hwallet, hiff.mpr hnames⟩

end Michelson

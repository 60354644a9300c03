import Michelson.Proofs.Alike
import Michelson.Proofs.Complaint

namespace Michelson

def Operand.number? : List Operand → Option Nat
  | .literal (.int (.ofNat n)) :: _ => some n
  | _ => none

/-- By how much an instruction raises the stack, given its number. For those whose bodies decide it this says nothing. -/
def Opcode.raise (op : Opcode) (number : Option Nat) : Int :=
  match op, number with
  | .drop, .some n => -n
  | .pair, .some n => 1 - n
  | .get, .some _ => 0
  | .update, .some _ => -1
  | .push, _ | .dup, _ | .none, _ | .nil, _ | .emptySet, _ | .emptyMap, _ | .emptyBigMap, _
  | .lambda, _ | .unpair, _ | .unit, _ | .now, _ | .selfAddress, _ | .sender, _ | .source, _
  | .amount, _ | .balance, _ => 1
  | .drop, _ | .pair, _ | .get, _ | .exec, _ | .apply, _ | .loop, _ | .iter, _ | .cons, _ | .mem, _
  | .concat, _ | .compare, _ | .add, _ | .sub, _ | .subMutez, _ | .mul, _ | .ediv, _ | .or, _
  | .and, _ | .xor, _ => -1
  | .update, _ | .slice, _ | .transferTokens, _ => -2
  | _, _ => 0

/-- What can be wrong with the number of an instruction: it may be too small, or the pair at hand may have no component
there. -/
inductive Misuse (number : Option Nat) : Opcode → List Ty → Malformed → Prop where
  | dup {slots : List Ty} : number = some 0 → Misuse number .dup slots .dupZero
  | pair {n : Nat} {slots : List Ty} : number = some n → n < 2 →
    Misuse number .pair slots (.pairBelowTwo n)
  | get {n : Nat} {pair : Ty} {rest : List Ty} : number = some n → pair.split?.isSome →
    pair.simplify.get? n = none →
    Misuse number .get (pair :: rest) (.indexOutOfRange n pair.simplify)
  | update {n : Nat} {x pair : Ty} {rest : List Ty} : number = some n → pair.split?.isSome →
    pair.simplify.get? n = none →
    Misuse number .update (x :: pair :: rest) (.indexOutOfRange n pair.simplify)

/-- The slots that are left are in every sublanguage that the type arguments and the slots at hand are in. -/
def MadeOf (args : List Operand) (slots out : List Ty) : Prop :=
  ∀ g : Fragment, (∀ t, Operand.type t ∈ args → t.within g) → typesWithin g slots →
    typesWithin g out

/-- All that an instruction without nested code can do on some slots, and on other slots that are alike. It leaves slots
whose number can be told, or it fails, and then on both. -/
inductive Conduct (op : Opcode) (args : List Operand) (slots : List Ty) : Verdict → Verdict → Prop where
  | leaves {out out' : List Ty} :
    (out.length : Int) = slots.length + op.raise (Operand.number? args) → MadeOf args slots out →
    StacksAlike out out' → Conduct op args slots (.ok out) (.ok out')
  | refuses {e e' : TypeError} : SlotComplaint op slots.length (.error e) → e.kind = e'.kind →
    e.opcode? = e'.opcode? → Conduct op args slots (.refuse e) (.refuse e')
  | misused {why why' : Malformed} : Misuse (Operand.number? args) op slots why →
    Conduct op args slots (.refuse (.malformed op why)) (.refuse (.malformed op why'))
  /-- An argument that it takes cannot be read. -/
  | unread {why : Malformed} : op.action args = .refuse (.malformed op why) →
    (∀ limit, why ≠ .tooDeep limit) →
    Conduct op args slots (.refuse (.malformed op why)) (.refuse (.malformed op why))
  | stops {f : Fault} : Complaint op slots.length (.fault f) →
    Conduct op args slots (.stop f) (.stop f)

theorem Misuse.append {number : Option Nat} {op : Opcode} {slots : List Ty} {why : Malformed}
    (h : Misuse number op slots why) (rest : List Ty) : Misuse number op (slots ++ rest) why := by
  cases h with
  | dup hn => exact .dup hn
  | pair hn h => exact .pair hn h
  | get hn hs hg => exact .get hn hs hg
  | update hn hs hg => exact .update hn hs hg

section

variable {op : Opcode} {args : List Operand} {slots : List Ty}

theorem MadeOf.append {out : List Ty} (h : MadeOf args slots out) (rest : List Ty) :
    MadeOf args (slots ++ rest) (out ++ rest) := by
  intro g ha hs
  rw [typesWithin_append, Bool.and_eq_true] at hs ⊢
  exact ⟨h g ha hs.1, hs.2⟩

/-- What an instruction does with the slots it takes off it does above any others. -/
theorem Conduct.append {v v' : Verdict} (h : Conduct op args slots v v') {rest rest' : List Ty}
    (hr : StacksAlike rest rest') :
    Conduct op args (slots ++ rest) (v.map (· ++ rest)) (v'.map (· ++ rest')) := by
  have hlen : slots.length ≤ (slots ++ rest).length := by simp
  cases h with
  | leaves hout hm ha =>
    refine .leaves ?_ (hm.append rest) (ha.append hr)
    rw [List.length_append, List.length_append]
    omega
  | refuses hc hk ho => exact .refuses ⟨hc.1.mono hlen, hc.2⟩ hk ho
  | misused hw => exact .misused (hw.append rest)
  | unread hw hd => exact .unread hw hd
  | stops hc => exact .stops (hc.mono hlen)

/-- One slot is left that is made of those at hand. -/
theorem Conduct.one {t t' : Ty} (ht : t.Alike t')
    (hr : (1 : Int) = slots.length + op.raise (Operand.number? args))
    (hw : ∀ g : Fragment, (∀ u, Operand.type u ∈ args → u.within g) → typesWithin g slots →
      t.within g) : Conduct op args slots (.ok [t]) (.ok [t']) := by
  refine .leaves hr (fun g ha hs => ?_) (.cons ht .nil)
  simp [hw g ha hs]

/-- A choice made alike on both sides. -/
theorem Conduct.ite {p q : Prop} [Decidable p] [Decidable q] (hpq : p ↔ q) {a a' b b' : Verdict}
    (ha : p → Conduct op args slots a a') (hb : ¬p → Conduct op args slots b b') :
    Conduct op args slots (if p then a else b) (if q then a' else b') := by
  by_cases hp : p
  · rw [if_pos hp, if_pos (hpq.mp hp)]
    exact ha hp
  · rw [if_neg hp, if_neg (mt hpq.mpr hp)]
    exact hb hp

/-- A key is compared with those of a map. -/
theorem Conduct.key {key key' k k' v map map' : Ty} {a a' : Verdict}
    (hm : map = .map k v ∨ map = .bigMap k v) (hkey : key.Alike key') (hk : k.Alike k')
    (h : Conduct op args slots a a') :
    Conduct op args slots (if key.equals k then a else .refuse (.mapKey op key map))
      (if key'.equals k' then a' else .refuse (.mapKey op key' map')) :=
  .ite (by rw [hkey.equals hk]) (fun _ => h) fun hne =>
    .refuses ⟨.mapKey hm (Bool.not_eq_true _ ▸ hne), rfl⟩ rfl rfl

end

def Ty.isBasic : Ty → Bool
  | .unit | .bool | .int | .nat | .mutez | .string | .bytes | .address | .timestamp
  | .operation => true
  | _ => false

theorem Ty.Alike.eq_of_isBasic {t u : Ty} (h : t.Alike u) (ht : t.isBasic) : u = t := by
  cases h <;> first | rfl | cases ht

theorem Ty.Alike.eq_iff {t u basic : Ty} (h : t.Alike u) (hb : basic.isBasic) :
    t = basic ↔ u = basic := by
  constructor
  · rintro rfl
    exact h.eq_of_isBasic hb
  · rintro rfl
    exact h.symm.eq_of_isBasic hb

/-- Alike types are both taken apart into alike components, or neither is. -/
theorem Ty.Alike.split_cases {t u : Ty} (h : t.Alike u) :
    t.split? = none ∧ u.split? = none ∨ ∃ l r l' r', t.split? = some (l, r) ∧
      u.split? = some (l', r') ∧ l.Alike l' ∧ r.Alike r' := by
  have hs := h.split?
  generalize t.split? = p at hs ⊢
  generalize u.split? = q at hs ⊢
  cases hs with
  | none => exact .inl ⟨rfl, rfl⟩
  | some hs => exact .inr ⟨_, _, _, _, rfl, rfl, hs⟩

namespace Promotion

/-- Where only basic operands are listed, alike operands have the same result. -/
theorem lookup_alike {table : List Promotion}
    (hb : ∀ p ∈ table, p.top.isBasic ∧ p.below.isBasic) {x x' y y' : Ty} (hx : x.Alike x')
    (hy : y.Alike y') : lookup x y table = lookup x' y' table := by
  induction table with
  | nil => rfl
  | cons p rest ih =>
    obtain ⟨ht, hbelow⟩ := hb p List.mem_cons_self
    have hrest := ih fun q hq => hb q (List.mem_cons_of_mem _ hq)
    simp only [lookup, hx.eq_iff ht, hy.eq_iff hbelow, hrest]

end Promotion

/-- All listed operands are basic, and the results are in every sublanguage. -/
theorem Opcode.promotions_basic (op : Opcode) (g : Fragment) :
    op.promotions.all fun p => p.top.isBasic && p.below.isBasic && p.result.within g := by
  cases op <;> rfl

namespace Action

/-- An instruction that asks for no more slots than it takes off, notices if there are fewer, and conducts itself on
those it finds. -/
structure Behaves (op : Opcode) (args : List Operand) (a : Action) : Prop where
  needed_le : a.needed ≤ a.taken
  short : ∀ xs : List Ty, a.needed ≤ xs.length → xs.length < a.taken → IsShort (a.result xs)
  conduct : ∀ {xs xs' : List Ty}, StacksAlike xs xs' → a.needed ≤ xs.length → xs.length ≤ a.taken →
    Conduct op args xs (a.result xs) (a.result xs')

section

variable {op : Opcode} {args : List Operand}

/-- For an action that takes off what it asks for, only its result is left to look at. -/
theorem behaves_of_conduct {n : Nat} {result : List Ty → Verdict}
    (h : ∀ {xs xs'}, StacksAlike xs xs' → xs.length = n →
      Conduct op args xs (result xs) (result xs')) : Behaves op args ⟨n, n, result⟩ where
  needed_le := Nat.le_refl n
  short _ hle hlt := absurd hlt (Nat.not_lt.mpr hle)
  conduct hs hle hge := h hs (Nat.le_antisymm hge hle)

theorem behaves_put {v : Verdict} (h : Conduct op args [] v v) : (put v).Behaves op args :=
  behaves_of_conduct fun {xs _} _ hl => by
    obtain rfl := List.eq_nil_of_length_eq_zero hl
    exact h

theorem behaves_one {f : Ty → Verdict}
    (h : ∀ {x x'}, x.Alike x' → Conduct op args [x] (f x) (f x')) : (one f).Behaves op args :=
  behaves_of_conduct fun hs hl => by
    match hs, hl with
    | .cons hx .nil, _ => exact h hx

theorem behaves_two {f : Ty → Ty → Verdict}
    (h : ∀ {x x' y y'}, x.Alike x' → y.Alike y' → Conduct op args [x, y] (f x y) (f x' y')) :
    (two f).Behaves op args :=
  behaves_of_conduct fun hs hl => by
    match hs, hl with
    | .cons hx (.cons hy .nil), _ => exact h hx hy

theorem behaves_three {f : Ty → Ty → Ty → Verdict}
    (h : ∀ {x x' y y' z z'}, x.Alike x' → y.Alike y' → z.Alike z' →
      Conduct op args [x, y, z] (f x y z) (f x' y' z')) : (three f).Behaves op args :=
  behaves_of_conduct fun hs hl => by
    match hs, hl with
    | .cons hx (.cons hy (.cons hz .nil)), _ => exact h hx hy hz

/-- An overloaded operation whose result is told by the form of its operand. -/
theorem behaves_unary (accepted : List Ty) {result : Ty → Option Ty}
    (hr : op.raise (Operand.number? args) = 0)
    (hsame : ∀ {x x'}, x.Alike x' → result x = result x')
    (hw : ∀ {x t} {g : Fragment}, (∀ u, Operand.type u ∈ args → u.within g) → result x = some t →
      t.within g) : (unary op accepted result).Behaves op args := by
  refine behaves_one fun hx => ?_
  rw [← hsame hx]
  split
  · rename_i t ht
    exact .one (.refl t) (by rw [hr]; rfl) fun g ha _ => hw ha ht
  · exact .refuses ⟨.stackTop _ _, rfl⟩ rfl rfl
  · exact .refuses ⟨.operand _ _, rfl⟩ rfl rfl

theorem behaves_convert {operand result : Ty} (hr : op.raise (Operand.number? args) = 0)
    (hb : operand.isBasic)
    (hw : ∀ {g : Fragment}, (∀ u, Operand.type u ∈ args → u.within g) → result.within g) :
    (convert op operand result).Behaves op args := by
  refine behaves_unary _ hr (fun hx => ?_) fun {x t g} ha ht => ?_
  · simp only [hx.eq_iff hb]
  · split at ht
    · cases ht
      exact hw ha
    · cases ht

theorem lookup_promotions_alike (op : Opcode) {x x' y y' : Ty} (hx : x.Alike x') (hy : y.Alike y') :
    Promotion.lookup x y op.promotions = Promotion.lookup x' y' op.promotions :=
  Promotion.lookup_alike (fun p hp => by
    have hbasic := List.all_eq_true.mp (op.promotions_basic .noVar) p hp
    simp only [Bool.and_eq_true] at hbasic
    exact hbasic.1) hx hy

theorem within_of_lookup {x y t : Ty} (g : Fragment)
    (h : Promotion.lookup x y op.promotions = some t) : t.within g := by
  have hlisted := List.all_eq_true.mp (op.promotions_basic g) _ (Promotion.mem_of_lookup h)
  exact (Bool.and_eq_true _ _ ▸ hlisted).2

/-- Alike operands have one result or none. -/
theorem conduct_resultFor (hr : op.raise (Operand.number? args) = -1) {x x' y y' : Ty}
    (hx : x.Alike x') (hy : y.Alike y') (accepted accepted' : List Ty) :
    Conduct op args [x, y]
      (resultFor op accepted [x, y] (Promotion.lookup x y op.promotions))
      (resultFor op accepted' [x', y'] (Promotion.lookup x' y' op.promotions)) := by
  rw [← lookup_promotions_alike op hx hy]
  cases ht : Promotion.lookup x y op.promotions with
  | some t => exact .one (.refl t) (by rw [hr]; rfl) fun g _ _ => within_of_lookup g ht
  | none => exact .refuses ⟨.operand _ _, rfl⟩ rfl rfl

theorem behaves_overloaded (accepted : Ty → Ty → List Ty)
    (hr : op.raise (Operand.number? args) = -1) : (overloaded op accepted).Behaves op args :=
  behaves_two fun hx hy => conduct_resultFor hr hx hy _ _

/-- Taking a pair apart, refused if it is none. -/
theorem behaves_onPair {f : Ty → Ty → Verdict} {refusal : Ty → TypeError}
    (h : ∀ {x l l' r r'}, l.Alike l' → r.Alike r' →
      (∀ g : Fragment, x.within g → l.within g ∧ r.within g) → Conduct op args [x] (f l r) (f l' r'))
    (hc : ∀ {x}, SlotComplaint op 1 (.error (refusal x)))
    (hsame : ∀ {x x'}, (refusal x).kind = (refusal x').kind ∧
      (refusal x).opcode? = (refusal x').opcode?) : (onPair f refusal).Behaves op args := by
  refine behaves_one fun {x x'} hx => ?_
  rcases hx.split_cases with ⟨hs, hs'⟩ | ⟨l, r, l', r', hs, hs', hl, hr⟩
  · rw [hs, hs']
    exact .refuses hc hsame.1 hsame.2
  · rw [hs, hs']
    exact h hl hr fun g hg => Ty.within_split hg hs

end

variable {args : List Operand}

theorem behaves_compare : Action.compare.Behaves .compare args := by
  refine behaves_two fun hx hy => ?_
  cases hx with
  | option hl =>
    cases hy with
    | option hr =>
      refine .ite (by rw [hl.equals hr]) (fun _ => ?_) fun _ => ?_
      · exact .one .int rfl fun g _ _ => rfl
      · exact .refuses ⟨.stackTop _ _, rfl⟩ rfl rfl
    | _ => exact conduct_resultFor rfl (.option hl) (by constructor <;> assumption) _ _
  | _ => exact conduct_resultFor rfl (by constructor <;> assumption) hy _ _

theorem behaves_slice : slice.Behaves .slice args := by
  refine behaves_three fun hx hy hz => ?_
  cases hx with
  | nat =>
    cases hy with
    | nat =>
      cases hz with
      | string | bytes => exact .one (.refl _) rfl fun g _ _ => rfl
      | _ => exact .refuses ⟨.operand _ _, rfl⟩ rfl rfl
    | _ => exact .refuses ⟨.operand _ _, rfl⟩ rfl rfl
  | _ => exact .refuses ⟨.operand _ _, rfl⟩ rfl rfl

theorem behaves_transferTokens : transferTokens.Behaves .transferTokens args := by
  refine behaves_three fun hx hy hz => ?_
  cases hy with
  | mutez =>
    cases hz with
    | contract hp =>
      refine .ite (by rw [hx.equals hp]) (fun _ => ?_) fun _ => ?_
      · exact .one .operation rfl fun g _ _ => rfl
      · exact .refuses ⟨.stackTop _ _, rfl⟩ rfl rfl
    | _ => exact .refuses ⟨.stackTop _ _, rfl⟩ rfl rfl
  | _ => exact .refuses ⟨.stackTop _ _, rfl⟩ rfl rfl

theorem behaves_cons : Action.cons.Behaves .cons args := by
  refine behaves_two fun hx hy => ?_
  cases hy with
  | list ht =>
    refine .ite (by rw [hx.equals ht]) (fun _ => ?_) fun _ => ?_
    · exact .one (.list ht) rfl fun g _ hs => by simp_all
    · exact .refuses ⟨.stackTop _ _, rfl⟩ rfl rfl
  | _ => exact .refuses ⟨.stackTop _ _, rfl⟩ rfl rfl

theorem behaves_mem : Action.mem.Behaves .mem args := by
  refine behaves_two fun hx hy => ?_
  cases hy with
  | set ht =>
    refine .ite (by rw [hx.equals ht]) (fun _ => ?_) fun h => ?_
    · exact .one .bool rfl fun g _ _ => rfl
    · exact .refuses ⟨.setElement (Bool.not_eq_true _ ▸ h), rfl⟩ rfl rfl
  | map hk _ => exact .key (.inl rfl) hx hk (.one .bool rfl fun g _ _ => rfl)
  | bigMap hk _ => exact .key (.inr rfl) hx hk (.one .bool rfl fun g _ _ => rfl)
  | _ => exact .refuses ⟨.operand _ _, rfl⟩ rfl rfl

theorem behaves_get (hn : Operand.number? args = none) : Action.get.Behaves .get args := by
  refine behaves_two fun hx hy => ?_
  cases hy with
  | map hk hv =>
    refine .key (.inl rfl) hx hk (.one (.option hv) (by rw [hn]; rfl) fun g _ hs => ?_)
    simp_all [Ty.within]
  | bigMap hk hv =>
    refine .key (.inr rfl) hx hk (.one (.option hv) (by rw [hn]; rfl) fun g _ hs => ?_)
    simp_all [Ty.within]
  | _ => exact .refuses ⟨.operand _ _, rfl⟩ rfl rfl

theorem isValueOf_alike {v v' y y' : Ty} (hv : v.Alike v') (hy : y.Alike y') :
    Collection.isValueOf v y = Collection.isValueOf v' y' := by
  cases hy with
  | option ht => exact ht.equals hv
  | _ => rfl

theorem behaves_update (hn : Operand.number? args = none) : Action.update.Behaves .update args := by
  have kept {x y z z' : Ty} (hz : z.Alike z') : Conduct .update args [x, y, z] (.ok [z]) (.ok [z']) :=
    .one hz (by rw [hn]; rfl) fun g _ hs => by simp_all
  refine behaves_three fun hx hy hz => ?_
  cases hz with
  | set ht =>
    refine .ite (by rw [hx.equals ht]) (fun h => ?_) fun _ =>
      .ite (hy.eq_iff rfl) (fun _ => kept (.set ht)) fun _ => ?_
    · exact .refuses ⟨.setElement (by simpa using h), rfl⟩ rfl rfl
    · exact .refuses ⟨.stackTop _ _, rfl⟩ rfl rfl
  | map hk hv =>
    refine .ite (by rw [hx.equals hk]) (fun h => ?_) fun _ =>
      .ite (by rw [isValueOf_alike hv hy]) (fun _ => kept (.map hk hv)) fun h => ?_
    · exact .refuses ⟨.mapKey (.inl rfl) (by simpa using h), rfl⟩ rfl rfl
    · exact .refuses ⟨.mapValue (.inl rfl) (Bool.not_eq_true _ ▸ h), rfl⟩ rfl rfl
  | bigMap hk hv =>
    refine .ite (by rw [hx.equals hk]) (fun h => ?_) fun _ =>
      .ite (by rw [isValueOf_alike hv hy]) (fun _ => kept (.bigMap hk hv)) fun h => ?_
    · exact .refuses ⟨.mapKey (.inr rfl) (by simpa using h), rfl⟩ rfl rfl
    · exact .refuses ⟨.mapValue (.inr rfl) (Bool.not_eq_true _ ▸ h), rfl⟩ rfl rfl
  | _ => exact .refuses ⟨.operand _ _, rfl⟩ rfl rfl

/-- The types are compared by what they stand for and reported as they are; those reported differ all the same. -/
theorem behaves_exec : exec.Behaves .exec args := by
  refine behaves_two fun hx hy => ?_
  cases hy with
  | lambda ha hr =>
    refine .ite (by rw [hx.simplify.equals ha.simplify]) (fun _ => ?_) fun h => ?_
    · exact .one hr rfl fun g _ hs => by simp_all [Ty.within_lambda]
    · have hdiffer := Bool.not_eq_true _ ▸ mt Ty.simplify_equals_simplify h
      exact .refuses ⟨.lambdaType hdiffer, rfl⟩ rfl rfl
  | _ => exact .refuses ⟨.wrongForm _ _, rfl⟩ rfl rfl

/-- What a lambda has been applied to is remembered, and that is all. -/
theorem behaves_apply : Action.apply.Behaves .apply args := by
  refine behaves_two fun {x x' y y'} hx hy => ?_
  cases hy with
  | @lambda f f' ha hr =>
    have hs := ha.simplify
    have hw (g : Fragment) : f.arg.within g → f.arg.simplify.within g := Ty.within_simplify
    dsimp only
    generalize f.arg.simplify = arg at hs hw ⊢
    generalize f'.arg.simplify = arg' at hs ⊢
    cases hs with
    | pair hl hr' =>
      refine .ite (by rw [hl.equals hx.simplify]) (fun _ => ?_) fun _ => ?_
      · refine .one (.lambda hr' hr) rfl fun g _ hs => ?_
        simp only [typesWithin_cons, typesWithin_nil, Ty.within_lambda, Bool.and_eq_true] at hs
        have hpair := hw g hs.2.1.1.1
        simp_all [Ty.within]
      · exact .refuses ⟨.stackTop _ _, rfl⟩ rfl rfl
    | _ => exact .refuses ⟨.stackTop _ _, rfl⟩ rfl rfl
  | _ => exact .refuses ⟨.stackTop _ _, rfl⟩ rfl rfl

/-- A component that is read or written, a pair that has none at the index, or no pair. -/
theorem conduct_component {op : Opcode} {slots : List Ty} {x x' : Ty} {found found' : Option Ty}
    {mismatch mismatch' : TypeError} {why why' : Malformed} (hx : x.Alike x')
    (hf : Option.Rel Ty.Alike found found') (hc : SlotComplaint op slots.length (.error mismatch))
    (hk : mismatch.kind = mismatch'.kind) (ho : mismatch.opcode? = mismatch'.opcode?)
    (hw : x.split?.isSome → found = none → Misuse (Operand.number? args) op slots why)
    (hout : ∀ {t t'}, found = some t → t.Alike t' → Conduct op args slots (.ok [t]) (.ok [t'])) :
    Conduct op args slots (component x found mismatch (.malformed op why))
      (component x' found' mismatch' (.malformed op why')) := by
  unfold component
  rcases hx.split_cases with ⟨hs, hs'⟩ | ⟨l, r, l', r', hs, hs', -, -⟩
  · rw [hs, hs']
    exact .refuses hc hk ho
  · rw [hs, hs']
    cases hf with
    | none => exact .misused (hw (by rw [hs]; rfl) rfl)
    | some ht => exact hout rfl ht

theorem behaves_getN {n : Nat} (hn : Operand.number? args = some n) :
    (getN n).Behaves .get args := by
  refine behaves_one fun hx => ?_
  refine conduct_component hx (hx.simplify.get? n) ⟨.stackTop _ _, rfl⟩ rfl rfl (.get hn) ?_
  intro t t' hget ht
  refine .one ht (by rw [hn]; rfl) fun g _ hs => ?_
  rw [typesWithin_cons, Bool.and_eq_true] at hs
  exact Ty.within_get (Ty.within_simplify hs.1) hget

theorem behaves_updateN {n : Nat} (hn : Operand.number? args = some n) :
    (updateN n).Behaves .update args := by
  refine behaves_two fun {x x' y y'} hx hy => ?_
  refine conduct_component hy (hx.update? n hy.simplify) ⟨.stackTop _ _, rfl⟩ rfl rfl ?_ ?_
  · intro hs hupdate
    refine .update hn hs ?_
    rw [← Option.not_isSome_iff_eq_none, ← Ty.isSome_update? (x := x), hupdate]
    simp
  · intro t t' hupdate ht
    refine .one ht (by rw [hn]; rfl) fun g _ hs => ?_
    simp only [typesWithin_cons, typesWithin_nil, Bool.and_eq_true] at hs
    exact Ty.within_update (Ty.within_simplify hs.2.1) hs.1 hupdate

theorem behaves_pairN {n : Nat} (hn : Operand.number? args = some n) :
    (pairN n).Behaves .pair args := by
  unfold pairN
  split
  · rename_i hlt
    exact behaves_put (.misused (.pair hn hlt))
  · rename_i hlt
    refine behaves_of_conduct fun {xs xs'} hs hl => ?_
    -- two slots or more always make a comb
    have hne : xs ≠ [] := List.ne_nil_of_length_pos (by omega)
    obtain ⟨t, ht⟩ := Option.isSome_iff_exists.mp (Ty.comb?_isSome hne)
    have hc := Ty.Alike.comb? hs
    rw [ht] at hc ⊢
    generalize Ty.comb? xs' = c at hc ⊢
    cases hc with
    | some hc =>
      refine .one hc ?_ fun g _ hw => Ty.within_comb hw ht
      rw [hn, hl, Opcode.raise]
      omega

theorem behaves_drop {n : Nat} (hr : Opcode.raise .drop (Operand.number? args) = -n) :
    (Action.drop n).Behaves .drop args :=
  behaves_of_conduct fun hs hl =>
    .leaves (by rw [hr, hl, List.length_nil]; omega) (fun g _ _ => rfl) .nil

/-- At one depth of alike stacks there are alike slots. -/
theorem slotAt_alike {ε : Type} {xs xs' : List Ty} (hs : StacksAlike xs xs') {n : Nat}
    (hn : n < xs.length) :
    ∃ t ∈ xs, ∃ t', t.Alike t' ∧ (slotAt xs n : Outcome ε Ty) = .ok t ∧
      (slotAt xs' n : Outcome ε Ty) = .ok t' := by
  have hn' : n < xs'.length := hs.length_eq ▸ hn
  exact ⟨xs[n], List.getElem_mem hn, xs'[n], hs.get hn hn', slotAt_of_lt hn, slotAt_of_lt hn'⟩

theorem behaves_dup {n : Nat} (hn : n = 0 → Operand.number? args = some 0) :
    (dup n).Behaves .dup args := by
  cases n with
  | zero => exact behaves_put (.misused (.dup (hn rfl)))
  | succ n =>
    refine behaves_of_conduct fun {xs xs'} hs hl => ?_
    obtain ⟨t, hmem, t', ht, h, h'⟩ := slotAt_alike (ε := TypeError) hs (n := n) (by omega)
    rw [h, h']
    refine .leaves ?_ (fun g _ hw => ?_) (.cons ht hs)
    · rw [List.length_cons, Opcode.raise]
      omega
    · simp [hw, typesWithin_iff.mp hw t hmem]

/-- The test for `n + 1` slots passes with fewer only where there are as many as can be counted. -/
theorem max_le_of_succ_le {n m : Nat} (hm : m ≤ n) (h : Size.succ n ≤ m) : Size.max ≤ m := by
  unfold Size.succ at h
  omega

/-- `DIG` is the one instruction that may count on a slot that is not there, if no more slots can be counted. -/
theorem behaves_dig {n : Nat} (hmax : n ≤ Size.max) : (dig n).Behaves .dig args where
  needed_le := Nat.min_le_left _ _
  short xs _ hlt := by
    simp only [dig, slotAt_of_ge (Nat.le_of_lt_succ hlt)]
    exact .inr ⟨_, rfl⟩
  conduct {xs xs'} hs hle hge := by
    simp only [dig] at hle hge ⊢
    rcases Nat.lt_or_ge n xs.length with hn | hn
    · obtain ⟨t, hmem, t', ht, h, h'⟩ := slotAt_alike (ε := TypeError) hs hn
      rw [h, h']
      refine .leaves ?_ (fun g _ hw => ?_) (.cons ht (List.forall₂_take n hs))
      · have hraise : Opcode.raise .dig (Operand.number? args) = 0 := rfl
        rw [List.length_cons, List.length_take, hraise]
        omega
      · rw [typesWithin_cons, Bool.and_eq_true]
        exact ⟨typesWithin_iff.mp hw t hmem, typesWithin_of_subset hw (List.take_subset n xs)⟩
    · have hlen := max_le_of_succ_le hn hle
      obtain rfl : n = Size.max := Nat.le_antisymm hmax (Nat.le_trans hlen hn)
      have hl : xs.length = Size.max := Nat.le_antisymm hn hlen
      rw [slotAt_of_ge hn, slotAt_of_ge (hs.length_eq ▸ hn), ← hs.length_eq, hl]
      exact .stops (.fault rfl hlen)

/-- `DUG` notices that there are too few slots only after it has taken off the top one, if no more can be counted. -/
theorem behaves_dug (n : Nat) : (dug n).Behaves .dug args where
  needed_le := Nat.min_le_left _ _
  short xs hle hlt := by
    cases xs with
    | nil => exact absurd hle (by simp [dug, Size.succ, Size.max])
    | cons x xs =>
      simp only [dug, if_pos (Nat.lt_of_succ_lt_succ hlt)]
      exact .inl ⟨_, rfl, rfl⟩
  conduct {xs xs'} hs hle hge := by
    cases hs with
    | nil => exact absurd hle (by simp [dug, Size.succ, Size.max])
    | @cons x x' rest rest' hx hs =>
      refine .ite (by rw [hs.length_eq]) (fun hlt => ?_) fun hlt => ?_
      · have hlen := max_le_of_succ_le hlt hle
        exact .refuses ⟨.missed hlen (Nat.ne_of_gt hlt), rfl⟩ rfl rfl
      · refine .leaves ?_ (fun g _ hw => ?_) (StacksAlike.append hs (.cons hx .nil))
        · have hraise : Opcode.raise .dug (Operand.number? args) = 0 := rfl
          simp [hraise]
        · simp_all

/-- The arguments of an instruction cannot be read, or they make it one that conducts itself. -/
inductive Settled (op : Opcode) (args : List Operand) : Outcome TypeError Action → Prop where
  | unread {why : Malformed} : (∀ limit, why ≠ .tooDeep limit) →
    Settled op args (.refuse (.malformed op why))
  | read {a : Action} : a.Behaves op args → Settled op args (.ok a)

namespace Settled

variable {op : Opcode}

/-- Reading a type argument settles an instruction if what follows it does. -/
theorem type {f : Ty → Outcome TypeError Action} (index : Nat)
    (h : ∀ t, Operand.type t ∈ args → Settled op args (f t)) :
    Settled op args (Operand.typeAt op args index >>= f) := by
  cases ht : Operand.typeAt op args index with
  | ok t => exact h t (Operand.mem_of_typeAt ht)
  | error e =>
    unfold Operand.typeAt at ht
    split at ht <;> cases ht
    exact .unread nofun

theorem literal {f : Literal → Outcome TypeError Action} (index : Nat)
    (h : ∀ l, Settled op args (f l)) : Settled op args (Operand.literalAt op args index >>= f) := by
  cases hl : Operand.literalAt op args index with
  | ok l => exact h l
  | error e =>
    unfold Operand.literalAt at hl
    split at hl <;> cases hl
    exact .unread nofun

theorem nat {f : Nat → Outcome TypeError Action} (index : Nat)
    (h : ∀ n, Operand.natAt op args index = .ok n → Settled op args (f n)) :
    Settled op args (Operand.natAt op args index >>= f) := by
  cases hn : Operand.natAt op args index with
  | ok n => exact h n hn
  | error e =>
    unfold Operand.natAt at hn
    split at hn
    · split at hn <;> cases hn
      exact .unread nofun
    · cases hn
      exact .unread nofun

/-- The number that may be left out is the one that is given. -/
theorem number {f : Option Nat → Outcome TypeError Action}
    (h : ∀ n, Operand.number? args = n → Settled op args (f n)) :
    Settled op args (Operand.nat? op args >>= f) := by
  cases args with
  | nil => exact h none rfl
  | cons arg args =>
    have hbind : Operand.nat? op (arg :: args) >>= f =
        Operand.natAt op (arg :: args) 0 >>= fun n => f (some n) := by
      simp only [Operand.nat?, List.isEmpty_cons, Bool.false_eq_true, if_false]
      cases Operand.natAt op (arg :: args) 0 <;> rfl
    rw [hbind]
    refine nat 0 fun n hn => h (some n) ?_
    unfold Operand.natAt at hn
    split at hn
    · rename_i hk
      split at hn <;> cases hn
      cases hk
      rfl
    · cases hn

end Settled

/-- Every instruction without nested code conducts itself, `FAILWITH` apart. -/
theorem settled_action (op : Opcode) (args : List Operand) (hf : op ≠ .failwith)
    (hb : op.hasBody = false) : Settled op args (op.action args) := by
  have put {op : Opcode} {t : Ty} (hr : op.raise (Operand.number? args) = 1)
      (hw : ∀ g : Fragment, (∀ u, Operand.type u ∈ args → u.within g) → t.within g) :
      Settled op args (.ok (put (.ok [t]))) :=
    .read (behaves_put (.one (.refl t) (by rw [hr]; rfl) fun g ha _ => hw g ha))
  cases op
  case push =>
    refine .type 0 fun t ht => .literal 1 fun l => .read (behaves_put ?_)
    refine .ite .rfl (fun _ => ?_) fun h => ?_
    · exact .one (.refl t) rfl fun g ha _ => ha t ht
    · exact .refuses ⟨.literalType rfl (Bool.not_eq_true _ ▸ h), rfl⟩ rfl rfl
  case drop =>
    refine .number fun n hn => .read (behaves_drop ?_)
    rw [hn]
    cases n <;> rfl
  case dup =>
    refine .number fun n hn => .read (behaves_dup fun hzero => ?_)
    cases n with
    | none => cases hzero
    | some n => rw [hn, show n = 0 from hzero]
  case dig => exact .nat 0 fun n hn => .read (behaves_dig (Operand.natAt_le hn))
  case dug => exact .nat 0 fun n _ => .read (behaves_dug n)
  case swap =>
    refine .read (behaves_two fun hx hy => .leaves rfl (fun g _ hs => ?_) (.cons hy (.cons hx .nil)))
    simp_all
  case exec => exact .read behaves_exec
  case apply => exact .read behaves_apply
  case comment => exact .read (behaves_put (.leaves rfl (fun g _ _ => rfl) .nil))
  case some =>
    exact .read (behaves_one fun hx => .one (.option hx) rfl fun g _ hs => by simp_all [Ty.within])
  case left =>
    refine .type 0 fun t ht => .read (behaves_one fun hx => .one (.or hx (.refl t)) rfl fun g ha hs => ?_)
    simp_all [Ty.within]
  case right =>
    refine .type 0 fun t ht => .read (behaves_one fun hx => .one (.or (.refl t) hx) rfl fun g ha hs => ?_)
    simp_all [Ty.within]
  case none | nil | emptySet =>
    exact .type 0 fun t ht => put rfl fun g ha => by simp [Ty.within, ha t ht]
  case emptyMap | emptyBigMap =>
    exact .type 0 fun k hk => .type 1 fun v hv => put rfl fun g ha => by
      simp [Ty.within, ha k hk, ha v hv]
  case car =>
    refine .read (behaves_onPair (fun hl _ hw => .one hl rfl fun g _ hs => ?_)
      ⟨.stackTop _ _, rfl⟩ ⟨rfl, rfl⟩)
    exact (hw g (typesWithin_iff.mp hs _ List.mem_cons_self)).1
  case cdr =>
    refine .read (behaves_onPair (fun _ hr hw => .one hr rfl fun g _ hs => ?_)
      ⟨.stackTop _ _, rfl⟩ ⟨rfl, rfl⟩)
    exact (hw g (typesWithin_iff.mp hs _ List.mem_cons_self)).2
  case unpair =>
    refine .read (behaves_onPair (fun hl hr hw => .leaves rfl (fun g _ hs => ?_)
      (.cons hl (.cons hr .nil))) ⟨.wrongForm _ _, rfl⟩ ⟨rfl, rfl⟩)
    simp [hw g (typesWithin_iff.mp hs _ List.mem_cons_self)]
  case pair =>
    refine .number fun n hn => ?_
    cases n with
    | none =>
      refine .read (behaves_two fun hx hy => .one (.pair hx hy) (by rw [hn]; rfl) fun g _ hs => ?_)
      simp_all [Ty.within]
    | some n => exact .read (behaves_pairN hn)
  case cons => exact .read behaves_cons
  case mem => exact .read behaves_mem
  case get =>
    refine .number fun n hn => ?_
    cases n with
    | none => exact .read (behaves_get hn)
    | some n => exact .read (behaves_getN hn)
  case update =>
    refine .number fun n hn => ?_
    cases n with
    | none => exact .read (behaves_update hn)
    | some n => exact .read (behaves_updateN hn)
  case pack => exact .read (behaves_one fun _ => .one .bytes rfl fun g _ _ => rfl)
  case unpack =>
    exact .type 0 fun t ht => .read (behaves_convert rfl rfl fun ha => by simp [Ty.within, ha t ht])
  case contract =>
    exact .type 0 fun t ht => .read (behaves_convert rfl rfl fun ha => by simp [Ty.within, ha t ht])
  case slice => exact .read behaves_slice
  case compare => exact .read behaves_compare
  case transferTokens => exact .read behaves_transferTokens
  case concat | add | sub | subMutez | mul | ediv | or | and | xor =>
    exact .read (behaves_overloaded _ rfl)
  case eq | neq | lt | gt | le | ge | abs | isnat | int | blake2b | keccak | sha256 | sha512 | sha3 =>
    exact .read (behaves_convert rfl rfl fun _ => rfl)
  case size | neg | not | address =>
    refine .read (behaves_unary _ rfl (fun hx => ?_) fun {x t g} _ ht => ?_)
    · cases hx <;> simp [Number.integer]
    · cases x <;> simp [Number.integer] at ht <;> simp [← ht, Ty.within]
  case unit | now | selfAddress | sender | source | amount | balance => exact put rfl fun g _ => rfl
  case failwith => exact absurd rfl hf
  case lambda | dip | ifBool | ifNone | ifLeft | ifCons | loop | iter => cases hb

/-- An action that behaves on the slots it takes off conducts itself on a whole stack. -/
theorem Behaves.conduct_rule {op : Opcode} {a : Action} (h : a.Behaves op args)
    {slots slots' : List Ty} (hs : StacksAlike slots slots') :
    Conduct op args slots (a.rule op slots) (a.rule op slots') := by
  rcases Nat.lt_or_ge slots.length a.needed with hlt | hle
  · rw [rule_of_lt op hlt, rule_of_lt op (hs.length_eq ▸ hlt)]
    exact .refuses ⟨.stackLength (Nat.ne_of_gt hlt), rfl⟩ rfl rfl
  · rw [rule_of_le op hle, rule_of_le op (hs.length_eq ▸ hle)]
    have htop : StacksAlike (slots.take a.taken) (slots'.take a.taken) := List.forall₂_take _ hs
    have hrest : StacksAlike (slots.drop a.taken) (slots'.drop a.taken) := List.forall₂_drop _ hs
    have hneeded : a.needed ≤ (slots.take a.taken).length := by
      have htaken := h.needed_le
      rw [List.length_take]
      omega
    have hout := (h.conduct htop hneeded (List.length_take_le _ _)).append hrest
    rwa [List.take_append_drop] at hout

end Action

namespace Rule

variable {op : Opcode} (args : List Operand) (hf : op ≠ .failwith) (hb : op.hasBody = false)

include hf hb

/-- The arguments of an instruction are found malformed before it looks at the stack, or it behaves. -/
theorem plain_cases :
    (∃ why, op.action args = .refuse (.malformed op why) ∧ (∀ limit, why ≠ .tooDeep limit) ∧
      plain op args = fun _ => .refuse (.malformed op why)) ∨
    ∃ a : Action, a.Behaves op args ∧ plain op args = a.rule op := by
  have heq : plain op args = fun slots => op.action args >>= fun a => a.rule op slots := by
    unfold plain
    split
    · exact absurd rfl hf
    · rfl
  have hsettled := Action.settled_action op args hf hb
  rw [heq]
  generalize op.action args = o at hsettled ⊢
  cases hsettled with
  | unread hd => exact .inl ⟨_, rfl, hd, rfl⟩
  | read ha => exact .inr ⟨_, ha, rfl⟩

/-- Every instruction without nested code conducts itself, but for `FAILWITH`. -/
theorem conduct_plain {slots slots' : List Ty} (hs : StacksAlike slots slots') :
    Conduct op args slots (plain op args slots) (plain op args slots') := by
  obtain ⟨why, hread, hd, hplain⟩ | ⟨a, ha, hplain⟩ := plain_cases args hf hb
  · rw [hplain]
    exact .unread hread hd
  · rw [hplain]
    exact ha.conduct_rule hs

/-- Every instruction without nested code looks at a fixed number of slots, but for `FAILWITH`. -/
theorem local_plain : (plain op args).Local := by
  obtain ⟨why, -, -, hplain⟩ | ⟨a, ha, hplain⟩ := plain_cases args hf hb
  · rw [hplain]
    exact ⟨0, reads_zero fun _ => rfl⟩
  · rw [hplain]
    exact ⟨a.taken, a.reads op ha.needed_le ha.short⟩

/-- An instruction without nested code makes types of those it finds and of its arguments, but for `FAILWITH`. -/
theorem keeps_plain {g : Fragment} (ht : ∀ t, Operand.type t ∈ args → t.within g) :
    (plain op args).Keeps g := by
  intro slots out hs ho
  have h := conduct_plain args hf hb (.refl slots)
  rw [ho] at h
  cases h with
  | leaves _ hm _ => exact hm g ht hs

end Rule

end Michelson

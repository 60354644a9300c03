import Michelson.Json.Form

namespace Michelson

open Json (ofString alternative ofFields string? bool? fields? items?)

mutual

/-- How many arrays and objects are nested in each other at most. -/
def Json.nesting : Json → Nat
  | .array items => 1 + itemsNesting items
  | .object members => 1 + membersNesting members
  | .null | .bool _ | .integer _ | .decimal _ | .string _ => 0

def itemsNesting : List Json → Nat
  | [] => 0
  | item :: rest => max item.nesting (itemsNesting rest)

def membersNesting : List (JsonText × Json) → Nat
  | [] => 0
  | (_, value) :: rest => max value.nesting (membersNesting rest)

end

theorem Json.nesting_ofString (s : String) : (ofString s).nesting = 0 := by
  rw [ofString, nesting]

theorem Json.nesting_alternative (name : String) (j : Json) :
    (alternative name j).nesting = 1 + j.nesting := by
  simp [alternative, nesting, membersNesting]

theorem Json.nesting_ofFields (fields : List (String × Json)) :
    (ofFields fields).nesting = 1 + itemsNesting (fields.map (·.2)) := by
  rw [ofFields, nesting]
  congr 1
  induction fields with
  | nil => simp [membersNesting, itemsNesting]
  | cons f fields ih => simp [membersNesting, itemsNesting, ih]

/-- A form is read as this value if there is room for it, and refused otherwise. -/
def ReadAs {α : Type} (read : Nat → Json → Option α) (j : Json) (a : α) : Prop :=
  ∀ room, read room j = if j.nesting ≤ room then some a else none

namespace ReadAs

variable {α β : Type} {read : Nat → Json → Option α}

/-- A form that takes no room. -/
theorem of_flat {j : Json} {a : α} (hj : j.nesting = 0) (h : ∀ room, read room j = some a) :
    ReadAs read j a := by
  intro room
  rw [h, hj, if_pos (Nat.zero_le room)]

/-- A form that takes a level of its own. -/
theorem of_succ {j : Json} {a : α} {n : Nat} (hj : j.nesting = 1 + n) (hz : read 0 j = none)
    (h : ∀ room, read (room + 1) j = if n ≤ room then some a else none) : ReadAs read j a := by
  intro room
  cases room with
  | zero => rw [hz, hj, if_neg (by omega)]
  | succ room =>
    have hle : 1 + n ≤ room + 1 ↔ n ≤ room := by omega
    simp only [h, hj, hle]

/-- An alternative is read as what its contents are read as. -/
theorem alternative {inner : Nat → Json → Option β} {j : Json} {b : β} (h : ReadAs inner j b)
    {name : String} {make : β → α} {a : α} (hz : read 0 (Json.alternative name j) = none)
    (hs : ∀ room, read (room + 1) (Json.alternative name j) = (inner room j).map make)
    (ha : make b = a) : ReadAs read (Json.alternative name j) a := by
  refine of_succ (Json.nesting_alternative name j) hz fun room => ?_
  rw [hs, h room, ← ha]
  split <;> rfl

theorem done {room : Nat} (a : α) :
    some a = if itemsNesting [] ≤ room then some a else none := by
  simp [itemsNesting]

theorem bind {j : Json} {a : α} (h : ReadAs read j a) {rest : List Json} {room : Nat} {b : β}
    {f : α → Option β} (hf : f a = if itemsNesting rest ≤ room then some b else none) :
    (read room j >>= f) = if itemsNesting (j :: rest) ≤ room then some b else none := by
  have hle : itemsNesting (j :: rest) ≤ room ↔ j.nesting ≤ room ∧ itemsNesting rest ≤ room := by
    rw [itemsNesting]
    omega
  rw [h room]
  by_cases hj : j.nesting ≤ room
  · rw [if_pos hj, Option.bind_eq_bind, Option.bind_some, hf]
    simp [hle, hj]
  · simp [hle, hj]

section

variable {list : Nat → Json → Option (List α)} (hl : list = items? read)

include hl

theorem nil : ReadAs list (.array []) [] := by
  subst hl
  refine of_succ (by rw [Json.nesting]) rfl fun room => ?_
  exact done []

theorem cons {j : Json} {a : α} {js : List Json} {as : List α} (h : ReadAs read j a)
    (hs : ReadAs list (.array js) as) : ReadAs list (.array (j :: js)) (a :: as) := by
  subst hl
  refine of_succ (by rw [Json.nesting]) rfl fun room => ?_
  have hrest : js.mapM (read room) = if itemsNesting js ≤ room then some as else none := by
    have hle : 1 + itemsNesting js ≤ room + 1 ↔ itemsNesting js ≤ room := by omega
    have hroom := hs (room + 1)
    simp only [items?, Json.nesting, hle] at hroom
    exact hroom
  change (j :: js).mapM (read room) = _
  rw [List.mapM_cons]
  refine h.bind ?_
  rw [hrest]
  split <;> rfl

end

end ReadAs

theorem mapM_map_eq_some {α β γ : Type} {f : β → Option γ} {g : α → β} {out : α → γ} {as : List α}
    (h : ∀ a ∈ as, f (g a) = some (out a)) : (as.map g).mapM f = some (as.map out) := by
  induction as with
  | nil => rfl
  | cons a as ih =>
    have hrest := ih fun b hb => h b (.tail a hb)
    rw [List.map_cons, List.mapM_cons, h a (.head as), hrest]
    rfl

namespace Json

section Fields

variable (fields : List (String × Json)) (hn : (fields.map (·.1)).Nodup)

include hn

/-- Names that differ tell fields apart. -/
theorem filter_name {f : String × Json} (hf : f ∈ fields) :
    fields.filter (fun g => g.1 = f.1) = [f] := by
  induction fields with
  | nil => cases hf
  | cons g fields ih =>
    rw [List.map_cons, List.nodup_cons] at hn
    rcases List.mem_cons.mp hf with rfl | hf
    · have hrest : fields.filter (fun g => g.1 = f.1) = [] := by
        refine List.filter_eq_nil_iff.mpr fun g hg he => hn.1 ?_
        exact of_decide_eq_true he ▸ List.mem_map_of_mem hg
      simp [hrest]
    · have hne : g.1 ≠ f.1 := fun he => hn.1 (he ▸ List.mem_map_of_mem hf)
      simp [hne, ih hn.2 hf]

theorem member?_of_mem {f : String × Json} (hf : f ∈ fields) :
    member? (fields.map fun (name, value) => (some name, value)) f.1 = some f.2 := by
  have hfound : ((fields.map fun (name, value) => (some name, value)).filter
      fun (key, _) => key = some f.1) = [(some f.1, f.2)] := by
    rw [List.filter_map]
    have hp : (fun g : String × Json => decide (g.1 = f.1)) =
        (fun (key, _) => decide (key = some f.1)) ∘ fun (name, value) => (some name, value) := by
      funext g
      simp
    rw [← hp, filter_name fields hn hf]
    rfl
  rw [member?, hfound]

/-- The fields of a structure are found under their names. -/
theorem fields?_ofFields :
    (ofFields fields).fields? (fields.map (·.1)) = some (fields.map (·.2)) := by
  have hkeys : (fields.map fun (name, value) => ((some name : JsonText), value)).all
      (fun (key, _) => key.isSome) := by
    simp
  rw [ofFields, fields?, if_pos hkeys]
  exact mapM_map_eq_some fun f hf => member?_of_mem fields hn hf

end Fields

theorem itemsNesting_integers (ds : List Nat) :
    itemsNesting (ds.map fun d => .integer (.ofNat d)) = 0 := by
  induction ds with
  | nil => rw [List.map_nil, itemsNesting]
  | cons d ds ih => rw [List.map_cons, itemsNesting, ih, nesting, Nat.max_self]

theorem below?_of_lt {n bound : Nat} (h : n < bound) :
    below? bound (.integer (.ofNat n)) = some n := by
  rw [below?, if_pos h]

theorem nesting_ofInt (n : Int) : (ofInt n).nesting = 2 := by
  simp only [ofInt, nesting, itemsNesting, itemsNesting_integers]
  decide

/-- A sign and the digits of the absolute value determine an integer. -/
theorem readAs_ofInt (n : Int) : ReadAs int? (ofInt n) n := by
  intro room
  rw [nesting_ofInt, ofInt, int?]
  have hdigits : ((digits n.natAbs).map fun d => Json.integer (.ofNat d)).mapM (below? digitBase) =
      some (digits n.natAbs) := by
    rw [mapM_map_eq_some fun d hd => below?_of_lt (lt_digitBase_of_mem_digits hd), List.map_id']
  by_cases hroom : room < 2
  · rw [if_pos hroom, if_neg (by omega)]
  · rw [if_neg hroom, if_pos (by omega), hdigits, Option.bind_some, ofDigits_digits]
    rcases Int.lt_trichotomy n 0 with hn | rfl | hn
    · rw [Int.sign_eq_neg_one_of_neg hn, if_pos rfl, Int.ofNat_natAbs_of_nonpos (by omega),
        Int.neg_neg]
    · rfl
    · rw [Int.sign_eq_one_of_pos hn, Int.natAbs_of_nonneg (by omega)]
      rfl

theorem readAs_byte (b : UInt8) : ReadAs byte? (.ofNat b.toNat) b := by
  refine .of_flat (by rw [ofNat, nesting]) fun room => ?_
  have hb : below? 256 (.integer (.ofNat b.toNat)) = some b.toNat := below?_of_lt b.toNat_lt
  rw [byte?, ofNat]
  change (below? 256 (.integer (.ofNat b.toNat))).map UInt8.ofNat = some b
  rw [hb, Option.map_some, UInt8.ofNat_toNat]

theorem readAs_bytes (bs : List UInt8) :
    ReadAs (items? byte?) (.array (bs.map fun b => .ofNat b.toNat)) bs := by
  induction bs with
  | nil => exact .nil rfl
  | cons b bs ih => exact .cons rfl (readAs_byte b) ih

theorem readAs_string (s : String) : ReadAs (fun _ => string?) (ofString s) s :=
  .of_flat (nesting_ofString s) fun _ => rfl

theorem readAs_bool (b : Bool) : ReadAs (fun _ => bool?) (.bool b) b :=
  .of_flat (by rw [nesting]) fun _ => rfl

end Json

theorem Opcode.readAs (op : Opcode) : ReadAs Opcode.ofJson? op.toJson op :=
  .of_flat (Json.nesting_ofString _) fun _ => ofMnemonic?_mnemonic op

theorem Literal.readAs : ∀ l : Literal, ReadAs Literal.ofJson? l.toJson l
  | .int n => (Json.readAs_ofInt n).alternative rfl (fun _ => rfl) rfl
  | .string s => (Json.readAs_string s).alternative rfl (fun _ => rfl) rfl
  | .bool b => (Json.readAs_bool b).alternative rfl (fun _ => rfl) rfl
  | .bytes bs => (Json.readAs_bytes bs).alternative rfl (fun _ => rfl) rfl
  | .unit => .of_flat (Json.nesting_ofString _) fun _ => rfl

theorem typesOfJson?_eq : typesOfJson? = items? Ty.ofJson? := by
  funext room j
  cases room <;> cases j <;> simp [typesOfJson?, items?]

theorem fieldsOfJson?_eq : fieldsOfJson? = items? Field.ofJson? := by
  funext room j
  cases room <;> cases j <;> simp [fieldsOfJson?, items?]

theorem argsOfJson?_eq : argsOfJson? = items? Arg.ofJson? := by
  funext room j
  cases room <;> cases j <;> simp [argsOfJson?, items?]

theorem codeOfJson?_eq : codeOfJson? = items? Instr.ofJson? := by
  funext room j
  cases room <;> cases j <;> simp [codeOfJson?, items?]

theorem Ty.readAs_pair {l r : Ty} (hl : ReadAs Ty.ofJson? l.toJson l)
    (hr : ReadAs Ty.ofJson? r.toJson r) :
    ReadAs Ty.pairOfJson? (.array [l.toJson, r.toJson]) (l, r) := by
  refine .of_succ (by rw [Json.nesting]) (by rw [Ty.pairOfJson?]; simp) fun room => ?_
  rw [Ty.pairOfJson?]
  exact hl.bind (hr.bind (ReadAs.done _))

mutual

/-- Types are read back, by induction over types and the code in them. -/
theorem Ty.readAs : ∀ t : Ty, ReadAs Ty.ofJson? t.toJson t
  | .option t | .list t | .set t | .contract t => by
    rw [Ty.toJson]
    exact t.readAs.alternative rfl (fun _ => rfl) rfl
  | .or l r | .pair l r | .map l r | .bigMap l r => by
    rw [Ty.toJson]
    exact (Ty.readAs_pair l.readAs r.readAs).alternative rfl (fun _ => rfl) rfl
  | .lambda f => by
    rw [Ty.toJson]
    exact f.readAs.alternative rfl (fun _ => rfl) rfl
  | .record r => by
    rw [Ty.toJson]
    exact r.readAs.alternative rfl (fun _ => rfl) rfl
  | .var name => by
    rw [Ty.toJson]
    exact (Json.readAs_string name).alternative rfl (fun _ => rfl) rfl
  | .unit | .bool | .int | .nat | .mutez | .string | .bytes | .address | .timestamp | .operation
  | .universal => by
    rw [Ty.toJson]
    refine .of_flat (Json.nesting_ofString _) fun room => ?_
    rw [ofString, Ty.ofJson?]
    rfl

theorem Lambda.readAs : ∀ f : Lambda, ReadAs Lambda.ofJson? f.toJson f
  | ⟨arg, ret, body, applied⟩ => by
    rw [Lambda.toJson]
    refine .of_succ (Json.nesting_ofFields _) rfl fun room => ?_
    have hfields := Json.fields?_ofFields [("arg", arg.toJson), ("ret", ret.toJson),
      ("body", .array (codeToJson body)), ("applied_args", .array (typesToJson applied))] (by simp)
    simp only [List.map_cons, List.map_nil] at hfields
    rw [Lambda.ofJson?, hfields]
    exact arg.readAs.bind (ret.readAs.bind ((readAs_code body).bind
      ((readAs_types applied).bind (ReadAs.done _))))

theorem Record.readAs : ∀ r : Record, ReadAs Record.ofJson? r.toJson r
  | ⟨name, fields⟩ => by
    rw [Record.toJson]
    refine .of_succ (Json.nesting_ofFields _) rfl fun room => ?_
    have hfields := Json.fields?_ofFields [("name", ofString name),
      ("fields", .array (fieldsToJson fields))] (by simp)
    simp only [List.map_cons, List.map_nil] at hfields
    rw [Record.ofJson?, hfields]
    exact (Json.readAs_string name).bind ((readAs_fields fields).bind (ReadAs.done _))

theorem Field.readAs : ∀ f : Field, ReadAs Field.ofJson? f.toJson f
  | ⟨name, type⟩ => by
    rw [Field.toJson]
    refine .of_succ (by rw [Json.nesting]) rfl fun room => ?_
    exact (Json.readAs_string name).bind (type.readAs.bind (ReadAs.done _))

theorem Arg.readAs : ∀ a : Arg, ReadAs Arg.ofJson? a.toJson a
  | .code body => by
    rw [Arg.toJson]
    exact (readAs_code body).alternative rfl (fun _ => rfl) rfl
  | .type t => by
    rw [Arg.toJson]
    exact t.readAs.alternative rfl (fun _ => rfl) rfl
  | .literal l => by
    rw [Arg.toJson]
    exact l.readAs.alternative rfl (fun _ => rfl) rfl

theorem Instr.readAs : ∀ i : Instr, ReadAs Instr.ofJson? i.toJson i
  | ⟨op, args⟩ => by
    rw [Instr.toJson]
    refine .of_succ (Json.nesting_ofFields _) rfl fun room => ?_
    have hfields := Json.fields?_ofFields [("opcode", op.toJson),
      ("args", .array (argsToJson args))] (by simp)
    simp only [List.map_cons, List.map_nil] at hfields
    rw [Instr.ofJson?, hfields]
    exact op.readAs.bind ((readAs_args args).bind (ReadAs.done _))

theorem readAs_types : ∀ ts : List Ty, ReadAs typesOfJson? (.array (typesToJson ts)) ts
  | [] => by
    rw [typesToJson]
    exact .nil typesOfJson?_eq
  | t :: ts => by
    rw [typesToJson]
    exact .cons typesOfJson?_eq t.readAs (readAs_types ts)

theorem readAs_fields : ∀ fs : List Field, ReadAs fieldsOfJson? (.array (fieldsToJson fs)) fs
  | [] => by
    rw [fieldsToJson]
    exact .nil fieldsOfJson?_eq
  | f :: fs => by
    rw [fieldsToJson]
    exact .cons fieldsOfJson?_eq f.readAs (readAs_fields fs)

theorem readAs_args : ∀ as : List Arg, ReadAs argsOfJson? (.array (argsToJson as)) as
  | [] => by
    rw [argsToJson]
    exact .nil argsOfJson?_eq
  | a :: as => by
    rw [argsToJson]
    exact .cons argsOfJson?_eq a.readAs (readAs_args as)

theorem readAs_code : ∀ is : List Instr, ReadAs codeOfJson? (.array (codeToJson is)) is
  | [] => by
    rw [codeToJson]
    exact .nil codeOfJson?_eq
  | i :: is => by
    rw [codeToJson]
    exact .cons codeOfJson?_eq i.readAs (readAs_code is)

end

theorem Contract.readAs (c : Contract) : ReadAs Contract.ofJson? c.toJson c := by
  refine .of_succ (Json.nesting_ofFields _) rfl fun room => ?_
  have hfields := Json.fields?_ofFields [("parameter", c.parameter.toJson),
    ("storage", c.storage.toJson), ("code", .array (codeToJson c.code))] (by simp)
  simp only [List.map_cons, List.map_nil] at hfields
  rw [Contract.ofJson?, Contract.toJson, hfields]
  exact c.parameter.readAs.bind (c.storage.readAs.bind ((readAs_code c.code).bind (ReadAs.done _)))

/-- What is written for a value is read as that value, of whatever kind it is, if there is room for it. With less room
it is refused. -/
theorem written_reads_back (room : Nat) :
    (∀ t : Ty, Ty.ofJson? room t.toJson = if t.toJson.nesting ≤ room then some t else none) ∧
    (∀ l : Literal,
      Literal.ofJson? room l.toJson = if l.toJson.nesting ≤ room then some l else none) ∧
    (∀ a : Arg, Arg.ofJson? room a.toJson = if a.toJson.nesting ≤ room then some a else none) ∧
    (∀ i : Instr, Instr.ofJson? room i.toJson = if i.toJson.nesting ≤ room then some i else none) ∧
    (∀ r : Record,
      Record.ofJson? room r.toJson = if r.toJson.nesting ≤ room then some r else none) ∧
    (∀ f : Lambda,
      Lambda.ofJson? room f.toJson = if f.toJson.nesting ≤ room then some f else none) ∧
    (∀ c : Contract,
      Contract.ofJson? room c.toJson = if c.toJson.nesting ≤ room then some c else none) := by
  refine ⟨fun t => ?_, fun l => ?_, fun a => ?_, fun i => ?_, fun r => ?_, fun f => ?_, fun c => ?_⟩
  · exact t.readAs room
  · exact l.readAs room
  · exact a.readAs room
  · exact i.readAs room
  · exact r.readAs room
  · exact f.readAs room
  · exact c.readAs room

/-- A contract that stores a lambda from a record, whose body pushes an integer of two digits, is read back within the
limit on texts. -/
theorem written_reads_back_lambda_storage :
    let push : Instr := ⟨.push, [.type .int, .literal (.int (-4294967297))]⟩
    let point : Ty := .record ⟨"point", [⟨"x", .int⟩, ⟨"y", .option .universal⟩]⟩
    let code : List Instr := [⟨.cdr, []⟩, ⟨.nil, [.type .operation]⟩, ⟨.pair, []⟩]
    let c : Contract := ⟨.unit, .function point .int [⟨.drop, []⟩, push], code⟩
    Contract.ofJson? Json.maxNesting c.toJson = some c := by
  intro push point code c
  have hroom : c.toJson.nesting ≤ Json.maxNesting := by
    simp only [c, code, point, push]
    cbv
  obtain ⟨-, -, -, -, -, -, hcontract⟩ := written_reads_back Json.maxNesting
  rw [hcontract c, if_pos hroom]

end Michelson

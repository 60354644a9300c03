import Michelson.Proofs.StackEffect

namespace Michelson

open Outcome (FailsBy)

namespace Rule

def Complains (op : Opcode) (rule : Rule) : Prop :=
  ∀ slots, FailsBy (Complaint op slots.length) (rule slots)

/-- An instruction without nested code fails for nothing but what it can complain of. -/
theorem complains_plain {op : Opcode} (args : List Operand) (hb : op.hasBody = false) :
    (plain op args).Complains op := by
  intro slots f hf
  by_cases hop : op = .failwith
  · subst hop
    cases slots <;> cases hf
    exact .stackLength nofun
  · have h := conduct_plain args hop hb (.refl slots)
    rw [hf] at h
    cases h with
    | refuses hc _ _ => exact hc.1
    | misused hw => cases hw <;> exact .malformed nofun
    | unread _ hd => exact .malformed hd
    | stops hc => exact hc

/-- A body that ends with the wrong slots is a complaint about slots. -/
theorem failsBy_endsWith {op : Opcode} {length : Nat} (expected slots : List Ty) :
    FailsBy (SlotComplaint op length) (Rule.endsWith op expected slots) := by
  refine .ite (fun _ => .ok ()) fun _ => .ite (fun h => ?_) fun _ => ?_
  · exact .refuse ⟨.stackLength h.symm, rfl⟩
  · exact .ite (fun _ => .ok ()) fun _ => .refuse ⟨.stackTop _ _, rfl⟩

theorem failsBy_returns {length : Nat} (ret : Ty) (slots : List Ty) :
    FailsBy (SlotComplaint .lambda length) (Rule.returns ret slots) := by
  refine .ite (fun _ => .ok ()) fun _ => ?_
  split
  · exact .ite (fun _ => .ok ()) fun h => .refuse ⟨.lambdaType (Bool.not_eq_true _ ▸ h), rfl⟩
  · rename_i hne
    refine .refuse ⟨.stackLength fun hl => ?_, rfl⟩
    obtain ⟨t, rfl⟩ := List.length_eq_one_iff.mp hl.symm
    exact hne t rfl

/-- Once a branch is never left the two agree, so those that differ are both left. -/
theorem failsBy_joined {length : Nat} (c : Conditional) (a b : List Ty) :
    FailsBy (SlotComplaint c.opcode length) (c.joined a b) := by
  unfold Conditional.joined
  cases ha : Conditional.isUnreached a with
  | true =>
    have hagree : slotsEqual b (if Conditional.isUnreached b then b else b) := by
      rw [ite_self]
      exact slotsEqual_refl b
    simp only [if_true, hagree]
    exact .ok _
  | false =>
    cases hb : Conditional.isUnreached b with
    | true =>
      simp only [if_true, Bool.false_eq_true, if_false, slotsEqual_refl]
      exact .ok _
    | false =>
      simp only [Bool.false_eq_true, if_false]
      refine .ite (fun _ => .ok _) fun h => .refuse ⟨?_, rfl⟩
      exact .branches (Bool.not_eq_true _ ▸ h) ha hb

/-- A value that a conditional accepts can be taken apart for either branch. -/
theorem parts_of_accepts {c : Conditional} {x : Ty} (h : c.accepts x) (side : Branch) :
    ∃ parts, c.parts side x = .ok parts := by
  cases c <;> cases x <;> cases h <;> cases side <;> exact ⟨_, rfl⟩

theorem partCount_le_two (c : Conditional) (side : Branch) : c.partCount side ≤ 2 := by
  cases c <;> cases side <;> simp [Conditional.partCount]

section

variable {P : Failure TypeError → Prop} {slots : List Ty}

theorem failsBy_onTop {op : Opcode} (own : ∀ f, SlotComplaint op slots.length f → P f)
    {f : Ty → Rule} (h : ∀ x rest, slots = x :: rest → FailsBy P (f x rest)) :
    FailsBy P (onTop op f slots) := by
  cases slots with
  | nil =>
    rw [onTop_nil]
    exact .refuse (own _ ⟨.stackLength nofun, rfl⟩)
  | cons x rest =>
    rw [onTop_cons]
    exact h x rest rfl

/-- `DIP` fails for want of slots, or as its body does. -/
theorem failsBy_dip (own : ∀ f, SlotComplaint .dip slots.length f → P f) {n : Nat} {body : Rule}
    (h : n ≤ slots.length → FailsBy P (body (slots.drop n))) : FailsBy P (dip n body slots) := by
  refine FailsBy.bind (.ite (fun hlt => ?_) fun _ => .ok ()) fun _ hn => ?_
  · exact .refuse (own _ ⟨.stackLength (Nat.ne_of_gt hlt), rfl⟩)
  · exact (h (le_length_of_require hn)).bind fun out _ => .ok _

/-- A repeated body fails on its own account, or ends with the wrong slots. -/
theorem failsBy_repeated {op : Opcode} (own : ∀ f, SlotComplaint op slots.length f → P f)
    {enter leave rest : List Ty} {body : Rule} (h : FailsBy P (body (enter ++ rest))) :
    FailsBy P (repeated op enter leave body rest) :=
  h.bind fun out _ => ((failsBy_endsWith _ out).mono own).bind fun _ _ => .ok _

theorem failsBy_loop (own : ∀ f, SlotComplaint .loop slots.length f → P f) {body : Rule}
    (h : ∀ rest, slots = .bool :: rest → FailsBy P (body rest)) : FailsBy P (loop body slots) := by
  refine failsBy_onTop own fun x rest hs => ?_
  split
  · rename_i hx
    subst hx
    exact failsBy_repeated own (h rest hs)
  · exact .refuse (own _ ⟨.stackTop _ _, rfl⟩)

theorem failsBy_iter (own : ∀ f, SlotComplaint .iter slots.length f → P f) {body : Rule}
    (h : ∀ x t rest, slots = x :: rest → Check.elements? x = Option.some t →
      FailsBy P (body (t :: rest))) :
    FailsBy P (iter body slots) := by
  refine failsBy_onTop own fun x rest hs => ?_
  cases ht : Check.elements? x with
  | some t => exact failsBy_repeated own (h x t rest hs ht)
  | none => exact .refuse (own _ ⟨.operand _ _, rfl⟩)

theorem failsBy_lambda (own : ∀ f, SlotComplaint .lambda slots.length f → P f) {arg ret : Ty}
    {code : List Instr} {body : Rule} (h : FailsBy P (body [arg])) :
    FailsBy P (lambda arg ret code body slots) :=
  h.bind fun out _ => ((failsBy_returns ret out).mono own).bind fun _ _ => .ok _

/-- A conditional fails for the value on top, for its arguments, as one of its branches does, or since these disagree.
-/
theorem failsBy_conditional {c : Conditional} (own : ∀ f, SlotComplaint c.opcode slots.length f → P f)
    {branches : Outcome TypeError (Rule × Rule)} (hbranches : FailsBy P branches)
    (h : ∀ p, branches = .ok p → ∀ x rest ps qs, slots = x :: rest → c.accepts x →
      c.parts .onTrue x = .ok ps → c.parts .onFalse x = .ok qs →
      FailsBy P (p.1 (ps ++ rest)) ∧ FailsBy P (p.2 (qs ++ rest))) :
    FailsBy P (conditional c branches slots) := by
  refine failsBy_onTop own fun x rest hs => .ite (fun hx => ?_) fun _ => ?_
  · refine hbranches.bind fun p hp => ?_
    obtain ⟨ps, hps⟩ := parts_of_accepts hx .onTrue
    obtain ⟨qs, hqs⟩ := parts_of_accepts hx .onFalse
    obtain ⟨ht, hf⟩ := h p hp x rest ps qs hs hx hps hqs
    simp only [branch, hps, hqs, Outcome.ok_bind]
    exact ht.bind fun a _ => hf.bind fun b _ => (failsBy_joined c a b).mono own
  · exact .refuse (own _ ⟨.stackTop _ _, rfl⟩)

theorem failsBy_branches {c : Conditional} (own : ∀ f, Complaint c.opcode slots.length f → P f)
    {args : List Operand} {ctx : Context}
    (nested : ∀ body, Operand.code body ∈ args → ∀ found, found.length ≤ slots.length + 1 →
      FailsBy P (body.rule c.opcode ctx found)) :
    FailsBy P (conditional c (branches c args ctx) slots) := by
  refine failsBy_conditional (fun f hf => own f hf.1) ?_ ?_
  · exact ((Operand.failsBy_branches args c).mono own).bind fun p _ => .ok _
  · intro p hp x rest ps qs hs _ hps hqs
    obtain ⟨onTrue, onFalse, ht, hf, rfl⟩ := exists_of_branches hp
    have hlen {side : Branch} {parts : List Ty} (h : c.parts side x = .ok parts) :
        (parts ++ rest).length ≤ slots.length + 1 := by
      have hcount := partCount_le_two c side
      rw [hs, List.length_append, List.length_cons, length_parts h]
      omega
    exact ⟨nested onTrue ht _ (hlen hps), nested onFalse hf _ (hlen hqs)⟩

/-- One instruction fails by its own complaints and by what its bodies fail by. A body finds at most one slot more than
the instruction. -/
theorem failsBy_ofOpcode {op : Opcode} {args : List Operand} {ctx : Context}
    (own : ∀ f, Complaint op slots.length f → P f)
    (nested : ∀ body, Operand.code body ∈ args → ∀ found, found.length ≤ slots.length + 1 →
      FailsBy P (body.rule op ctx found)) : FailsBy P (ofOpcode op args ctx slots) := by
  have codeAt {index : Nat} {body : Body} (h : Operand.codeAt op args index = .ok body) :=
    nested body (Operand.mem_of_codeAt h)
  have stack (f : Failure TypeError) (hf : SlotComplaint op slots.length f) : P f := own f hf.1
  cases op with
  | lambda =>
    refine ((Operand.failsBy_typeAt args 0).mono own).bind fun arg _ => ?_
    refine ((Operand.failsBy_typeAt args 1).mono own).bind fun ret _ => ?_
    refine ((Operand.failsBy_codeAt args 2).mono own).bind fun body hb => ?_
    exact failsBy_lambda stack (codeAt hb [arg] (by simp))
  | dip =>
    refine ((Operand.failsBy_dipOperands args).mono own).bind fun p hp => ?_
    exact failsBy_dip stack fun _ => nested p.2 (Check.mem_of_dipOperands hp) _ (by simp; omega)
  | loop =>
    refine ((Operand.failsBy_codeAt args 0).mono own).bind fun body hb => ?_
    exact failsBy_loop stack fun rest hs => codeAt hb rest (by simp [hs]; omega)
  | iter =>
    refine ((Operand.failsBy_codeAt args 0).mono own).bind fun body hb => ?_
    exact failsBy_iter stack fun x t rest hs _ => codeAt hb (t :: rest) (by simp [hs])
  | ifBool => exact failsBy_branches (c := .ifBool) own nested
  | ifNone => exact failsBy_branches (c := .ifNone) own nested
  | ifLeft => exact failsBy_branches (c := .ifLeft) own nested
  | ifCons => exact failsBy_branches (c := .ifCons) own nested
  | _ => exact (complains_plain args rfl slots).mono own

end

end Rule

mutual

/-- The number of instructions in code, those nested in others included. -/
def codeSize : List Instr → Nat
  | [] => 0
  | i :: rest => i.size + codeSize rest

def Instr.size : Instr → Nat
  | ⟨_, args⟩ => 1 + argsSize args

def argsSize : List Arg → Nat
  | [] => 0
  | .code body :: rest => codeSize body + argsSize rest
  | .type _ :: rest | .literal _ :: rest => argsSize rest

end

/-- Nested code is no longer than the arguments it is among. -/
theorem codeSize_le_argsSize {body : List Instr} :
    ∀ {args : List Arg}, Arg.code body ∈ args → codeSize body ≤ argsSize args
  | .code code :: args, h => by
    rw [argsSize]
    rcases List.mem_cons.mp h with h | h
    · cases h
      omega
    · have := codeSize_le_argsSize h
      omega
  | .type _ :: args, h | .literal _ :: args, h => by
    rw [argsSize]
    exact codeSize_le_argsSize (by simpa using h)

/-- No instruction without nested code adds more than one slot. -/
theorem Opcode.raise_le_one (op : Opcode) (number : Option Nat) : op.raise number ≤ 1 := by
  unfold Opcode.raise
  split <;> omega

namespace Rule

def Grows (k : Nat) (rule : Rule) : Prop :=
  ∀ slots out : List Ty, rule slots = .ok out → out.length ≤ slots.length + k

theorem Raises.grows {d : Int} {k : Nat} {rule : Rule} (h : rule.Raises d) (hd : d ≤ k) :
    rule.Grows k := by
  intro slots out ho
  have := h slots out ho
  omega

theorem Grows.bind {α : Type} {k : Nat} {x : Outcome TypeError α} {f : α → Rule}
    (h : ∀ a, x = .ok a → (f a).Grows k) : Grows k fun slots => x >>= fun a => f a slots := by
  intro slots out ho
  obtain ⟨a, ha, ho⟩ := Outcome.bind_eq_ok.mp ho
  exact h a ha slots out ho

theorem grows_plain {op : Opcode} (args : List Operand) (hb : op.hasBody = false) :
    (plain op args).Grows 1 := by
  by_cases hf : op = .failwith
  · subst hf
    intro slots out ho
    cases slots with
    | nil => cases ho
    | cons x rest =>
      cases ho
      simp
  · exact (raises_plain args hf hb).grows (op.raise_le_one _)

/-- `DIP` adds at most one slot more than its body, the one of a stack that is never reached. -/
theorem grows_dip (n : Nat) {k : Nat} {body : Rule} (hb : body.Grows k) :
    (dip n body).Grows (k + 1) := by
  intro slots out ho
  obtain ⟨_, hn, ho⟩ := Outcome.bind_eq_ok.mp ho
  obtain ⟨inner, hi, ho⟩ := Outcome.bind_eq_ok.mp ho
  have hlen := le_length_of_require hn
  have hinner := hb _ inner hi
  cases ho
  split
  · rw [List.length_singleton]
    omega
  · simp only [List.length_append, List.length_take, List.length_drop] at hinner ⊢
    omega

theorem grows_conditional (c : Conditional) {k : Nat} {branches : Outcome TypeError (Rule × Rule)}
    (hb : ∀ p, branches = .ok p → p.1.Grows k ∧ p.2.Grows k) :
    (conditional c branches).Grows (k + 1) := by
  have branch {side : Branch} {x : Ty} {body : Rule} {rest out : List Ty} (hg : body.Grows k)
      (ho : branch c side x body rest = .ok out) : out.length ≤ rest.length + (k + 2) := by
    obtain ⟨parts, hp, ho⟩ := Outcome.bind_eq_ok.mp ho
    have hparts := length_parts hp
    have hcount := partCount_le_two c side
    have hout := hg _ out ho
    rw [List.length_append] at hout
    omega
  intro slots out ho
  cases slots with
  | nil => cases ho
  | cons x rest =>
    rw [conditional, onTop_cons] at ho
    split at ho
    · obtain ⟨p, hp, ho⟩ := Outcome.bind_eq_ok.mp ho
      obtain ⟨a, ha, ho⟩ := Outcome.bind_eq_ok.mp ho
      obtain ⟨b, hb', ho⟩ := Outcome.bind_eq_ok.mp ho
      have hla := branch (hb p hp).1 ha
      have hlb := branch (hb p hp).2 hb'
      rw [eq_of_joined ho, List.length_cons]
      split <;> omega
    · cases ho

/-- Any instruction adds at most one slot more than the longest of its bodies. -/
theorem grows_ofOpcode {op : Opcode} {args : List Operand} {ctx : Context} {k : Nat}
    (hb : ∀ body, Operand.code body ∈ args → (body.rule op ctx).Grows k) :
    (ofOpcode op args ctx).Grows (k + 1) := by
  refine ofOpcode_cases .bind ?plain ?lambda ?dip ?loop ?iter ?conditional
  case plain =>
    intro hp slots out ho
    have := grows_plain args hp slots out ho
    omega
  case lambda =>
    intro _ arg ret body _ _ _
    exact (raises_lambda arg ret body.code _).grows (by omega)
  case dip =>
    intro _ n body hbody
    exact grows_dip n (hb body hbody)
  case loop =>
    intro _ body _
    exact (raises_loop _).grows (by omega)
  case iter =>
    intro _ body _
    exact (raises_iter _).grows (by omega)
  case conditional =>
    rintro c rfl
    refine grows_conditional c fun p hp => ?_
    obtain ⟨onTrue, onFalse, ht, hf, rfl⟩ := exists_of_branches hp
    exact ⟨hb onTrue ht, hb onFalse hf⟩

end Rule

/-- An instruction adds no more slots than there are instructions in it. -/
theorem grows_instr {op : Opcode} {args : List Arg} {ctx : Context}
    (nested : ∀ body, Arg.code body ∈ args →
      ((checkCode body).rule ctx.deeper).Grows (codeSize body)) :
    ((Instr.check ⟨op, args⟩).rule ctx).Grows (Instr.size ⟨op, args⟩) := by
  have bodies (body : Body) (hm : Operand.code body ∈ operands args) :
      (body.rule op ctx).Grows (argsSize args) := by
    intro slots out ho
    obtain ⟨hcheck, hmem⟩ := mem_operands hm
    rw [Body.rule, Check.rule_inScope _ _ (operands_confined body hm), hcheck] at ho
    split at ho
    · have := nested body.code hmem slots out ho
      have := codeSize_le_argsSize hmem
      omega
    · cases ho
  intro slots out ho
  rw [Instr.rule_check] at ho
  obtain ⟨_, -, ho⟩ := Outcome.bind_eq_ok.mp ho
  have := Rule.grows_ofOpcode bodies slots out ho
  rw [Instr.size]
  omega

/-- Code adds at most one slot for each of its instructions. -/
theorem grows_checkCode (code : List Instr) (ctx : Context) :
    ((checkCode code).rule ctx).Grows (codeSize code) := by
  induction code using code_induction generalizing ctx with
  | nil =>
    intro slots out ho
    rw [rule_checkCode_nil] at ho
    cases ho
    omega
  | cons op args rest nested ih =>
    intro slots out ho
    rw [rule_checkCode_cons] at ho
    obtain ⟨mid, hm, ho⟩ := Outcome.bind_eq_ok.mp ho
    have hmid := grows_instr (fun body hb => nested body hb ctx.deeper) slots mid hm
    rw [codeSize]
    split at ho
    · cases ho
      omega
    · have := ih ctx mid out ho
      omega

/-- Where and why code fails: at the first instruction or a later one, for what that complains of, for want of a scope,
or in code nested in it. What the instructions before it have left, and what the nested code finds, is known by its
length only. -/
inductive FailsAt : Context → List Ty → List Instr → Failure TypeError → Prop where
  | own {ctx : Context} {slots : List Ty} {op : Opcode} {args : List Arg} {rest : List Instr}
    {f : Failure TypeError} : Complaint op slots.length f → FailsAt ctx slots (⟨op, args⟩ :: rest) f
  | noRoom {ctx : Context} {slots : List Ty} {op : Opcode} {args : List Arg} {rest body : List Instr} :
    Arg.code body ∈ args → ¬ctx.HasRoom → FailsAt ctx slots (⟨op, args⟩ :: rest)
      (.error (.malformed op (.tooDeep ctx.config.maxNestingDepth)))
  | nested {ctx : Context} {slots found : List Ty} {op : Opcode} {args : List Arg}
    {rest body : List Instr} {f : Failure TypeError} :
    Arg.code body ∈ args → found.length ≤ slots.length + 1 → FailsAt ctx.deeper found body f →
    FailsAt ctx slots (⟨op, args⟩ :: rest) f
  | later {ctx : Context} {slots left : List Ty} {i : Instr} {rest : List Instr}
    {f : Failure TypeError} :
    left.length ≤ slots.length + i.size → FailsAt ctx left rest f → FailsAt ctx slots (i :: rest) f

/-- Every failure of code has a place and a reason. By induction over code and the code nested in it: the first
instruction fails, or what follows it on the slots that it leaves. -/
theorem failsAt_checkCode (code : List Instr) (ctx : Context) (slots : List Ty) :
    FailsBy (FailsAt ctx slots code) ((checkCode code).rule ctx slots) := by
  induction code using code_induction generalizing ctx slots with
  | nil =>
    rw [rule_checkCode_nil]
    exact .ok _
  | cons op args rest nested ih =>
    have bodies (body : Body) (hm : Operand.code body ∈ operands args) (found : List Ty)
        (hf : found.length ≤ slots.length + 1) :
        FailsBy (FailsAt ctx slots (⟨op, args⟩ :: rest)) (body.rule op ctx found) := by
      obtain ⟨hcheck, hmem⟩ := mem_operands hm
      rw [Body.rule, Check.rule_inScope _ _ (operands_confined body hm), hcheck]
      refine .ite (fun _ => ?_) fun hroom => .refuse (.noRoom hmem hroom)
      exact (nested body.code hmem ctx.deeper found).mono fun f h => .nested hmem hf h
    rw [rule_checkCode_cons]
    refine FailsBy.bind ?_ fun left hleft => ?_
    · rw [Instr.rule_check]
      refine ((Operand.failsBy_count _).mono fun f => .own).bind fun _ _ => ?_
      exact Rule.failsBy_ofOpcode (fun f => .own) bodies
    · refine .ite (fun _ => .ok _) fun _ => (ih ctx left).mono fun f h => .later ?_ h
      exact grows_instr (fun body _ => grows_checkCode body ctx.deeper) slots left hleft

inductive Instr.OccursIn (i : Instr) : List Instr → Prop where
  | here {code : List Instr} : i ∈ code → i.OccursIn code
  | nested {outer : Instr} {body code : List Instr} :
    outer ∈ code → Arg.code body ∈ outer.args → i.OccursIn body → i.OccursIn code

theorem Instr.OccursIn.cons {i first : Instr} {rest : List Instr} (h : i.OccursIn rest) :
    i.OccursIn (first :: rest) := by
  cases h with
  | here hm => exact .here (.tail _ hm)
  | nested hm hbody hi => exact .nested (.tail _ hm) hbody hi

/-- A failure can be laid to one instruction, which complains or is nested too deep. It finds no more slots than the code
can have put on the stack. -/
theorem FailsAt.exists_instr {ctx : Context} {slots : List Ty} {code : List Instr}
    {f : Failure TypeError} (h : FailsAt ctx slots code f) :
    ∃ i : Instr, i.OccursIn code ∧ (Complaint i.opcode (slots.length + codeSize code) f ∨
      ∃ limit, f = .error (.malformed i.opcode (.tooDeep limit))) := by
  induction h with
  | own hc => exact ⟨_, .here (.head _), .inl (hc.mono (Nat.le_add_right _ _))⟩
  | noRoom => exact ⟨_, .here (.head _), .inr ⟨_, rfl⟩⟩
  | @nested _ slots found op args rest body _ hm hl _ ih =>
    obtain ⟨i, hi, hf⟩ := ih
    have hsize : found.length + codeSize body ≤ slots.length + codeSize (⟨op, args⟩ :: rest) := by
      have := codeSize_le_argsSize hm
      rw [codeSize, Instr.size]
      omega
    exact ⟨i, .nested (.head _) hm hi, hf.imp_left fun hc => hc.mono hsize⟩
  | @later _ slots left first rest _ hl _ ih =>
    obtain ⟨i, hi, hf⟩ := ih
    have hsize : left.length + codeSize rest ≤ slots.length + codeSize (first :: rest) := by
      rw [codeSize]
      omega
    exact ⟨i, hi.cons, hf.imp_left fun hc => hc.mono hsize⟩

/-- Nothing stops short of an answer as long as the stack can be counted. -/
theorem FailsAt.le_of_fault {ctx : Context} {slots : List Ty} {code : List Instr} {f : Fault}
    (h : FailsAt ctx slots code (.fault f)) : Size.max ≤ slots.length + codeSize code := by
  obtain ⟨i, -, hc | ⟨limit, hf⟩⟩ := h.exists_instr
  · cases hc with
    | fault _ hl => exact hl
  · cases hf

end Michelson

import Michelson.Proofs.Branches
import Michelson.Proofs.Causes
import Michelson.Proofs.Components

namespace Michelson

open Outcome (FailsBy)

inductive ArgKind where
  | type | literal | code
  /-- An integer that is a size and no less than this. -/
  | number (least : Nat)
  deriving DecidableEq

def Arg.fits : ArgKind → Arg → Bool
  | .type, .type _ | .literal, .literal _ | .code, .code _ => true
  | .number least, .literal (.int n) => decide (least ≤ n) && decide (n ≤ Size.max)
  | _, _ => false

def argsFit : List ArgKind → List Arg → Bool
  | [], [] => true
  | kind :: kinds, arg :: args => arg.fits kind && argsFit kinds args
  | _, _ => false

/-- The forms of arguments that an instruction takes. Comments take any others as well. -/
def Opcode.forms : Opcode → List (List ArgKind)
  | .lambda => [[.type, .type, .code]]
  | .push => [[.type, .literal]]
  | .emptyMap | .emptyBigMap => [[.type, .type]]
  | .none | .left | .right | .nil | .emptySet | .unpack | .contract => [[.type]]
  | .iter | .loop => [[.code]]
  | .dig | .dug => [[.number 0]]
  | .dip => [[.code], [.number 0, .code]]
  | .dup => [[], [.number 1]]
  | .drop | .get | .update => [[], [.number 0]]
  | .pair => [[], [.number 2]]
  | .ifBool | .ifNone | .ifLeft | .ifCons => [[.code, .code]]
  | _ => [[]]

/-- Whether the arguments of an instruction have a form that its opcode takes. -/
def Instr.wellFormed (i : Instr) : Bool :=
  i.opcode == .comment || i.opcode.forms.any fun form => argsFit form i.args

section

variable {arg : Arg} {args : List Arg}

theorem Arg.fits_type : arg.fits .type ↔ ∃ t, arg = .type t := by
  cases arg <;> simp [fits]

theorem Arg.fits_literal : arg.fits .literal ↔ ∃ l, arg = .literal l := by
  cases arg <;> simp [fits]

theorem Arg.fits_code : arg.fits .code ↔ ∃ body, arg = .code body := by
  cases arg <;> simp [fits]

theorem Arg.fits_number {least : Nat} :
    arg.fits (.number least) ↔ ∃ n : Nat, arg = .ofInt n ∧ least ≤ n ∧ n ≤ Size.max := by
  cases arg with
  | code body => simp [fits, ofInt]
  | type t => simp [fits, ofInt]
  | literal l =>
    cases l with
    | int n =>
      simp only [fits, ofInt, Bool.and_eq_true, decide_eq_true_eq, Arg.literal.injEq, Literal.int.injEq]
      constructor
      · rintro ⟨hleast, hmax⟩
        exact ⟨n.toNat, by omega, by omega, by omega⟩
      · rintro ⟨m, rfl, hleast, hmax⟩
        exact ⟨by omega, by omega⟩
    | _ => simp [fits, ofInt]

theorem argsFit_nil : argsFit [] args ↔ args = [] := by
  cases args <;> simp [argsFit]

theorem argsFit_cons {kind : ArgKind} {kinds : List ArgKind} :
    argsFit (kind :: kinds) args ↔
      ∃ arg rest, arg.fits kind ∧ argsFit kinds rest ∧ args = arg :: rest := by
  cases args <;> simp [argsFit]

theorem length_of_argsFit {form : List ArgKind} (h : argsFit form args) :
    args.length = form.length := by
  induction form generalizing args with
  | nil => rw [argsFit_nil.mp h, List.length_nil, List.length_nil]
  | cons kind form ih =>
    obtain ⟨arg, rest, -, hrest, rfl⟩ := argsFit_cons.mp h
    rw [List.length_cons, List.length_cons, ih hrest]

theorem argsFit_one {kind : ArgKind} :
    argsFit [kind] args ↔ ∃ arg, arg.fits kind ∧ args = [arg] := by
  simp [argsFit_cons, argsFit_nil]

theorem argsFit_two {kind kind' : ArgKind} :
    argsFit [kind, kind'] args ↔
      ∃ arg arg', arg.fits kind ∧ arg'.fits kind' ∧ args = [arg, arg'] := by
  simp only [argsFit_cons, argsFit_nil]
  grind

/-- An instruction is well formed if its arguments have one of its forms, or if it is a comment. -/
theorem Instr.wellFormed_iff {op : Opcode} :
    Instr.wellFormed ⟨op, args⟩ ↔ op = .comment ∨ ∃ form ∈ op.forms, argsFit form args := by
  simp [wellFormed]

end

section

variable {op : Opcode} {args : List Arg} {index : Nat}

def HasArg (args : List Arg) (index : Nat) (kind : ArgKind) : Prop :=
  ∃ arg, args[index]? = some arg ∧ arg.fits kind

theorem exists_arg {o : Operand} (h : (operands args)[index]? = some o) :
    ∃ arg, args[index]? = some arg ∧ arg.operand = o := by
  rw [operands_eq_map, List.getElem?_map] at h
  exact Option.map_eq_some_iff.mp h

theorem hasArg_of_typeAt {t : Ty} (h : Operand.typeAt op (operands args) index = .ok t) :
    HasArg args index .type := by
  unfold Operand.typeAt at h
  split at h
  · rename_i hat
    obtain ⟨arg, ha, ho⟩ := exists_arg hat
    refine ⟨arg, ha, ?_⟩
    cases arg <;> cases ho
    rfl
  · cases h

theorem hasArg_of_literalAt {l : Literal} (h : Operand.literalAt op (operands args) index = .ok l) :
    HasArg args index .literal := by
  unfold Operand.literalAt at h
  split at h
  · rename_i hat
    obtain ⟨arg, ha, ho⟩ := exists_arg hat
    refine ⟨arg, ha, ?_⟩
    cases arg <;> cases ho
    rfl
  · cases h

theorem hasArg_of_codeAt {body : Body} (h : Operand.codeAt op (operands args) index = .ok body) :
    HasArg args index .code :=
  ⟨_, getElem?_of_codeAt h, rfl⟩

theorem hasArg_of_natAt {n least : Nat} (hn : least ≤ n)
    (h : Operand.natAt op (operands args) index = .ok n) : HasArg args index (.number least) := by
  unfold Operand.natAt at h
  split at h
  · rename_i hat
    obtain ⟨arg, ha, ho⟩ := exists_arg hat
    split at h
    · rename_i hmax
      cases h
      refine ⟨arg, ha, Arg.fits_number.mpr ⟨_, ?_, hn, hmax⟩⟩
      cases arg <;> cases ho
      rfl
    · cases h
  · cases h

theorem length_of_count {least most : Nat} (ha : op.arity = some (least, most))
    (h : Operand.count op (operands args) = .ok ()) : least ≤ args.length ∧ args.length ≤ most := by
  rw [Operand.count, ha] at h
  dsimp only at h
  rw [operands_eq_map, List.length_map] at h
  split at h
  · cases h
  · omega

theorem argsFit_of_length_one {kind : ArgKind} (hl : args.length = 1) (h : HasArg args 0 kind) :
    argsFit [kind] args := by
  match args, hl with
  | [a], _ =>
    obtain ⟨_, ⟨⟩, hf⟩ := h
    simp [argsFit, hf]

theorem argsFit_of_length_two {kind kind' : ArgKind} (hl : args.length = 2)
    (h : HasArg args 0 kind) (h' : HasArg args 1 kind') : argsFit [kind, kind'] args := by
  match args, hl with
  | [a, b], _ =>
    obtain ⟨_, ⟨⟩, hf⟩ := h
    obtain ⟨_, ⟨⟩, hf'⟩ := h'
    simp [argsFit, hf, hf']

theorem argsFit_of_length_three {kind kind' kind'' : ArgKind} (hl : args.length = 3)
    (h : HasArg args 0 kind) (h' : HasArg args 1 kind') (h'' : HasArg args 2 kind'') :
    argsFit [kind, kind', kind''] args := by
  match args, hl with
  | [a, b, c], _ =>
    obtain ⟨_, ⟨⟩, hf⟩ := h
    obtain ⟨_, ⟨⟩, hf'⟩ := h'
    obtain ⟨_, ⟨⟩, hf''⟩ := h''
    simp [argsFit, hf, hf', hf'']

/-- A number that may be left out is of a kind, if what is done with it succeeds from there on only. -/
theorem argsFit_of_nat? (least : Nat) {n : Option Nat} (hl : args.length ≤ 1)
    (h : Operand.nat? op (operands args) = .ok n) (hn : ∀ m, n = some m → least ≤ m) :
    argsFit [] args ∨ argsFit [.number least] args := by
  match args, hl with
  | [], _ => exact .inl rfl
  | [arg], _ =>
    obtain ⟨m, hm, hmap⟩ := Outcome.bind_eq_ok.mp h
    cases hmap
    exact .inr (argsFit_of_length_one rfl (hasArg_of_natAt (hn m rfl) hm))

theorem Check.argsFit_of_dipOperands {n : Nat} {body : Body}
    (hc : Operand.count .dip (operands args) = .ok ())
    (h : dipOperands (operands args) = .ok (n, body)) :
    argsFit [.code] args ∨ argsFit [.number 0, .code] args := by
  match args with
  | [] => cases hc
  | [arg] =>
    obtain ⟨_, hb, -⟩ := Outcome.bind_eq_ok.mp h
    exact .inl (argsFit_of_length_one rfl (hasArg_of_codeAt hb))
  | [arg, arg'] =>
    obtain ⟨m, hm, h⟩ := Outcome.bind_eq_ok.mp h
    obtain ⟨_, hb, -⟩ := Outcome.bind_eq_ok.mp h
    exact .inr (argsFit_of_length_two rfl (hasArg_of_natAt (Nat.zero_le m) hm) (hasArg_of_codeAt hb))
  | _ :: _ :: _ :: rest => cases hc

end

/-- A conditional that succeeds has found its branches. -/
theorem Rule.branches_of_conditional {c : Conditional} {branches : Outcome TypeError (Rule × Rule)}
    {slots out : List Ty} (h : conditional c branches slots = .ok out) : ∃ p, branches = .ok p := by
  cases slots with
  | nil => cases h
  | cons x rest =>
    rw [conditional, onTop_cons] at h
    split at h
    · obtain ⟨p, hp, -⟩ := Outcome.bind_eq_ok.mp h
      exact ⟨p, hp⟩
    · cases h

/-- An instruction that succeeds has arguments that suit it. -/
theorem wellFormed_of_rule {op : Opcode} {args : List Arg} {ctx : Context} {slots out : List Ty}
    (h : (Instr.check ⟨op, args⟩).rule ctx slots = .ok out) : Instr.wellFormed ⟨op, args⟩ := by
  rw [Instr.rule_check] at h
  obtain ⟨⟨⟩, hc, h⟩ := Outcome.bind_eq_ok.mp h
  rw [Instr.wellFormed_iff]
  -- the number of arguments, where it is fixed
  have length {n : Nat} (ha : op.arity = some (n, n)) : args.length = n := by
    have := length_of_count ha hc
    omega
  cases op
  case comment => exact .inl rfl
  case lambda =>
    obtain ⟨arg, harg, h⟩ := Outcome.bind_eq_ok.mp h
    obtain ⟨ret, hret, h⟩ := Outcome.bind_eq_ok.mp h
    obtain ⟨body, hbody, -⟩ := Outcome.bind_eq_ok.mp h
    exact .inr ⟨_, .head _, argsFit_of_length_three (length rfl) (hasArg_of_typeAt harg)
      (hasArg_of_typeAt hret) (hasArg_of_codeAt hbody)⟩
  case push =>
    obtain ⟨a, h, -⟩ := Outcome.bind_eq_ok.mp h
    obtain ⟨t, ht, h⟩ := Outcome.bind_eq_ok.mp h
    obtain ⟨l, hl, -⟩ := Outcome.bind_eq_ok.mp h
    exact .inr ⟨_, .head _, argsFit_of_length_two (length rfl) (hasArg_of_typeAt ht)
      (hasArg_of_literalAt hl)⟩
  case emptyMap | emptyBigMap =>
    obtain ⟨a, h, -⟩ := Outcome.bind_eq_ok.mp h
    obtain ⟨k, hk, h⟩ := Outcome.bind_eq_ok.mp h
    obtain ⟨v, hv, -⟩ := Outcome.bind_eq_ok.mp h
    exact .inr ⟨_, .head _, argsFit_of_length_two (length rfl) (hasArg_of_typeAt hk)
      (hasArg_of_typeAt hv)⟩
  case none | left | right | nil | emptySet | unpack | contract =>
    obtain ⟨a, h, -⟩ := Outcome.bind_eq_ok.mp h
    obtain ⟨t, ht, -⟩ := Outcome.bind_eq_ok.mp h
    exact .inr ⟨_, .head _, argsFit_of_length_one (length rfl) (hasArg_of_typeAt ht)⟩
  case iter | loop =>
    obtain ⟨body, hbody, -⟩ := Outcome.bind_eq_ok.mp h
    exact .inr ⟨_, .head _, argsFit_of_length_one (length rfl) (hasArg_of_codeAt hbody)⟩
  case dig | dug =>
    obtain ⟨a, h, -⟩ := Outcome.bind_eq_ok.mp h
    obtain ⟨n, hn, -⟩ := Outcome.bind_eq_ok.mp h
    exact .inr ⟨_, .head _, argsFit_of_length_one (length rfl) (hasArg_of_natAt n.zero_le hn)⟩
  case dip =>
    obtain ⟨⟨n, body⟩, hdip, -⟩ := Outcome.bind_eq_ok.mp h
    simpa [Opcode.forms] using Check.argsFit_of_dipOperands hc hdip
  case drop | get | update =>
    obtain ⟨a, h, -⟩ := Outcome.bind_eq_ok.mp h
    obtain ⟨n, hn, -⟩ := Outcome.bind_eq_ok.mp h
    have := argsFit_of_nat? 0 (length_of_count rfl hc).2 hn fun m _ => m.zero_le
    simpa [Opcode.forms] using this
  case dup =>
    obtain ⟨a, ha, h⟩ := Outcome.bind_eq_ok.mp h
    obtain ⟨n, hn, ha⟩ := Outcome.bind_eq_ok.mp ha
    cases ha
    have := argsFit_of_nat? 1 (length_of_count rfl hc).2 hn fun m hm => by
      subst hm
      cases m with
      | zero => cases h
      | succ m => omega
    simpa [Opcode.forms] using this
  case pair =>
    obtain ⟨a, ha, h⟩ := Outcome.bind_eq_ok.mp h
    obtain ⟨n, hn, ha⟩ := Outcome.bind_eq_ok.mp ha
    cases ha
    have := argsFit_of_nat? 2 (length_of_count rfl hc).2 hn fun m hm => by
      subst hm
      refine Nat.le_of_not_lt fun hlt => ?_
      rw [Option.elim_some, Action.pairN, if_pos hlt] at h
      cases h
    simpa [Opcode.forms] using this
  case ifBool | ifNone | ifLeft | ifCons =>
    obtain ⟨p, hp⟩ := Rule.branches_of_conditional h
    obtain ⟨⟨a, b⟩, hbranches, -⟩ := Outcome.bind_eq_ok.mp hp
    obtain rfl := Conditional.eq_of_branches hbranches
    exact .inr ⟨_, .head _, rfl⟩
  all_goals exact .inr ⟨_, .head _, argsFit_nil.mpr (List.eq_nil_of_length_eq_zero (length rfl))⟩

namespace Instr

/-- What an instruction hands to its bodies: each is checked on slots that come of those the instruction finds. -/
inductive Enters : Instr → List Ty → List Instr → List Ty → Prop where
  | lambda {arg ret : Ty} {body : List Instr} {slots : List Ty} :
    Enters ⟨.lambda, [.type arg, .type ret, .code body]⟩ slots body [arg]
  | dip {args : List Arg} {n : Nat} {body : List Instr} {slots : List Ty} :
    IsDip args n body → n ≤ slots.length → Enters ⟨.dip, args⟩ slots body (slots.drop n)
  | loop {body : List Instr} {rest : List Ty} :
    Enters ⟨.loop, [.code body]⟩ (.bool :: rest) body rest
  | iter {body : List Instr} {x t : Ty} {rest : List Ty} :
    Check.elements? x = some t → Enters ⟨.iter, [.code body]⟩ (x :: rest) body (t :: rest)
  | onTrue {c : Conditional} {a b : List Instr} {x : Ty} {ps qs rest : List Ty} :
    c.TakesApart x ps qs → Enters ⟨c.opcode, [.code a, .code b]⟩ (x :: rest) a (ps ++ rest)
  | onFalse {c : Conditional} {a b : List Instr} {x : Ty} {ps qs rest : List Ty} :
    c.TakesApart x ps qs → Enters ⟨c.opcode, [.code a, .code b]⟩ (x :: rest) b (qs ++ rest)

theorem Enters.mem {i : Instr} {slots found : List Ty} {body : List Instr}
    (h : i.Enters slots body found) : Arg.code body ∈ i.args := by
  cases h with
  | dip h => rcases h with ⟨rfl, -⟩ | ⟨rfl, -⟩ <;> simp
  | _ => simp

/-- The reasons to call an instruction malformed that do not lie in how it is written: a body is about to be entered and
there is no scope left for it, or the pair at hand has no component at the index. -/
inductive Excuse (ctx : Context) : Instr → List Ty → Malformed → Prop where
  | tooDeep {i : Instr} {slots found : List Ty} {body : List Instr} :
    i.Enters slots body found → ¬ctx.HasRoom → Excuse ctx i slots (.tooDeep ctx.config.maxNestingDepth)
  | get {n : Nat} {pair : Ty} {rest : List Ty} :
    pair.split?.isSome → pair.simplify.get? n = none →
    Excuse ctx (.get n) (pair :: rest) (.indexOutOfRange n pair.simplify)
  | update {n : Nat} {x pair : Ty} {rest : List Ty} :
    pair.split?.isSome → pair.simplify.get? n = none →
    Excuse ctx (.update n) (x :: pair :: rest) (.indexOutOfRange n pair.simplify)

section

variable {op : Opcode} {args : List Arg}

theorem argsFit_of_wellFormed {form : List ArgKind} (hw : wellFormed ⟨op, args⟩)
    (hf : op.forms = [form]) (hc : op ≠ .comment) : argsFit form args := by
  obtain h | ⟨form', hm, h⟩ := wellFormed_iff.mp hw
  · exact absurd h hc
  · rw [hf, List.mem_singleton] at hm
    exact hm ▸ h

theorem argsFit_or_of_wellFormed {form form' : List ArgKind} (hw : wellFormed ⟨op, args⟩)
    (hf : op.forms = [form, form']) (hc : op ≠ .comment) : argsFit form args ∨ argsFit form' args := by
  obtain h | ⟨form'', hm, h⟩ := wellFormed_iff.mp hw
  · exact absurd h hc
  · rw [hf, List.mem_cons, List.mem_singleton] at hm
    rcases hm with rfl | rfl
    · exact .inl h
    · exact .inr h

/-- A number that may be left out is read if it is given. -/
theorem nat?_of_wellFormed {least : Nat} (hw : wellFormed ⟨op, args⟩)
    (hf : op.forms = [[], [.number least]]) (hc : op ≠ .comment) :
    args = [] ∨ ∃ n : Nat, args = [.ofInt n] ∧ least ≤ n ∧
      Operand.nat? op (operands args) = .ok (some n) := by
  rcases argsFit_or_of_wellFormed hw hf hc with h | h
  · exact .inl (argsFit_nil.mp h)
  · obtain ⟨arg, harg, rfl⟩ := argsFit_one.mp h
    obtain ⟨n, rfl, hleast, hmax⟩ := Arg.fits_number.mp harg
    exact .inr ⟨n, rfl, hleast, by rw [Operand.nat?_ofInt, if_pos hmax]⟩

theorem type_of_wellFormed (hw : wellFormed ⟨op, args⟩) (hf : op.forms = [[.type]])
    (hc : op ≠ .comment) : ∃ t, args = [.type t] := by
  obtain ⟨arg, harg, rfl⟩ := argsFit_one.mp (argsFit_of_wellFormed hw hf hc)
  obtain ⟨t, rfl⟩ := Arg.fits_type.mp harg
  exact ⟨t, rfl⟩

theorem code_of_wellFormed (hw : wellFormed ⟨op, args⟩) (hf : op.forms = [[.code]])
    (hc : op ≠ .comment) : ∃ body, args = [.code body] := by
  obtain ⟨arg, harg, rfl⟩ := argsFit_one.mp (argsFit_of_wellFormed hw hf hc)
  obtain ⟨body, rfl⟩ := Arg.fits_code.mp harg
  exact ⟨body, rfl⟩

theorem number_of_wellFormed {least : Nat} (hw : wellFormed ⟨op, args⟩)
    (hf : op.forms = [[.number least]]) (hc : op ≠ .comment) :
    ∃ n : Nat, Operand.natAt op (operands args) 0 = .ok n := by
  obtain ⟨arg, harg, rfl⟩ := argsFit_one.mp (argsFit_of_wellFormed hw hf hc)
  obtain ⟨n, rfl, -, hmax⟩ := Arg.fits_number.mp harg
  exact ⟨n, by rw [Operand.natAt_ofInt, if_pos hmax]⟩

/-- The arguments of a well-formed `DIP` give it a height and a body. -/
theorem isDip_of_wellFormed (hw : wellFormed ⟨.dip, args⟩) : ∃ n body, IsDip args n body := by
  rcases argsFit_or_of_wellFormed hw rfl (by simp) with h | h
  · obtain ⟨arg, harg, rfl⟩ := argsFit_one.mp h
    obtain ⟨body, rfl⟩ := Arg.fits_code.mp harg
    exact ⟨1, body, .inr ⟨rfl, rfl⟩⟩
  · obtain ⟨arg, arg', harg, harg', rfl⟩ := argsFit_two.mp h
    obtain ⟨n, rfl, -, hmax⟩ := Arg.fits_number.mp harg
    obtain ⟨body, rfl⟩ := Arg.fits_code.mp harg'
    exact ⟨n, body, .inl ⟨rfl, hmax⟩⟩

theorem length_of_mem_forms {form : List ArgKind} {least most : Nat} (hm : form ∈ op.forms)
    (ha : op.arity = some (least, most)) : least ≤ form.length ∧ form.length ≤ most := by
  cases op <;> cases ha <;> simp [Opcode.forms] at hm
  all_goals first
    | subst hm; decide
    | rcases hm with rfl | rfl <;> decide

/-- Arguments that suit an instruction are as many as it takes. -/
theorem count_of_wellFormed (hw : wellFormed ⟨op, args⟩) :
    Operand.count op (operands args) = .ok () := by
  obtain rfl | ⟨form, hform, hfit⟩ := wellFormed_iff.mp hw
  · rfl
  · unfold Operand.count
    split
    · rename_i least most ha
      have hlen := length_of_mem_forms hform ha
      rw [operands_eq_map, List.length_map, length_of_argsFit hfit, if_neg]
      omega
    · rfl

/-- The arguments of a well-formed instruction can be read. -/
theorem action_of_wellFormed (hw : wellFormed ⟨op, args⟩) (hop : op ≠ .failwith)
    (hb : op.hasBody = false) : ∃ a, op.action (operands args) = .ok a := by
  cases op
  case push =>
    obtain ⟨arg, arg', harg, harg', rfl⟩ := argsFit_two.mp (argsFit_of_wellFormed hw rfl (by simp))
    obtain ⟨t, rfl⟩ := Arg.fits_type.mp harg
    obtain ⟨l, rfl⟩ := Arg.fits_literal.mp harg'
    exact ⟨_, rfl⟩
  case emptyMap | emptyBigMap =>
    obtain ⟨arg, arg', harg, harg', rfl⟩ := argsFit_two.mp (argsFit_of_wellFormed hw rfl (by simp))
    obtain ⟨k, rfl⟩ := Arg.fits_type.mp harg
    obtain ⟨v, rfl⟩ := Arg.fits_type.mp harg'
    exact ⟨_, rfl⟩
  case none | nil | emptySet | left | right | unpack | contract =>
    obtain ⟨t, rfl⟩ := type_of_wellFormed hw rfl (by simp)
    exact ⟨_, rfl⟩
  case dig | dug =>
    obtain ⟨n, hn⟩ := number_of_wellFormed hw rfl (by simp)
    exact ⟨_, by rw [Opcode.action, hn]; rfl⟩
  case drop | dup | pair | get | update =>
    obtain rfl | ⟨n, -, -, hn⟩ := nat?_of_wellFormed hw rfl (by simp)
    · exact ⟨_, rfl⟩
    · exact ⟨_, by rw [Opcode.action, hn]; rfl⟩
  case failwith => exact absurd rfl hop
  case lambda | dip | loop | iter | ifBool | ifNone | ifLeft | ifCons => cases hb
  all_goals exact ⟨_, rfl⟩

/-- The number of a well-formed instruction is not too small. -/
theorem excuse_of_misuse {ctx : Context} {slots : List Ty} {why : Malformed}
    (hw : wellFormed ⟨op, args⟩) (hm : Misuse (Operand.number? (operands args)) op slots why) :
    Excuse ctx ⟨op, args⟩ slots why := by
  cases hm with
  | dup hn =>
    obtain rfl | ⟨n, rfl, hleast, -⟩ := nat?_of_wellFormed hw rfl (by simp)
    · cases hn
    · cases hn
      cases hleast
  | pair hn hlt =>
    obtain rfl | ⟨n, rfl, hleast, -⟩ := nat?_of_wellFormed hw rfl (by simp)
    · cases hn
    · cases hn
      omega
  | get hn hs hget =>
    obtain rfl | ⟨n, rfl, -, -⟩ := nat?_of_wellFormed hw rfl (by simp)
    · cases hn
    · cases hn
      exact .get hs hget
  | update hn hs hget =>
    obtain rfl | ⟨n, rfl, -, -⟩ := nat?_of_wellFormed hw rfl (by simp)
    · cases hn
    · cases hn
      exact .update hs hget

section

variable {ctx : Context} {slots : List Ty} {P : Failure TypeError → Prop}
  (own : ∀ f, f.isMalformed = false → P f)
  (excuse : ∀ why, Excuse ctx ⟨op, args⟩ slots why → P (.error (.malformed op why)))

include own excuse

/-- A well-formed instruction without nested code can be malformed only for the index it is given. -/
theorem failsBy_plain (hw : wellFormed ⟨op, args⟩) (hb : op.hasBody = false) :
    FailsBy P (Rule.plain op (operands args) slots) := by
  intro f hf
  by_cases hop : op = .failwith
  · subst hop
    cases slots <;> cases hf
    exact own _ rfl
  · have h := Rule.conduct_plain (operands args) hop hb (.refl slots)
    rw [hf] at h
    cases h with
    | refuses hc _ _ => exact own _ hc.2
    | misused hm => exact excuse _ (excuse_of_misuse hw hm)
    | unread hread _ =>
      obtain ⟨a, ha⟩ := action_of_wellFormed hw hop hb
      cases ha.symm.trans hread
    | stops => exact own _ rfl

/-- A well-formed instruction can be malformed only with an excuse, or for what its bodies are malformed on the slots it
hands to them. -/
theorem failsBy_check (hw : wellFormed ⟨op, args⟩)
    (nested : ∀ body found, Enters ⟨op, args⟩ slots body found → ctx.HasRoom →
      FailsBy P ((checkCode body).rule ctx.deeper found)) :
    FailsBy P ((check ⟨op, args⟩).rule ctx slots) := by
  have slot (f : Failure TypeError) (hf : SlotComplaint op slots.length f) : P f := own f hf.2
  have enter {body : List Instr} {found : List Ty} (h : Enters ⟨op, args⟩ slots body found) :
      FailsBy P (Body.rule ⟨body, checkCode body⟩ op ctx found) := by
    rw [Body.rule, Check.rule_inScope _ _ (checkCode_confined body)]
    exact .ite (nested body found h) fun hroom => .refuse (excuse _ (.tooDeep h hroom))
  have conditional (c : Conditional) (hc : op = c.opcode) :
      FailsBy P (Rule.conditional c (Rule.branches c (operands args) ctx) slots) := by
    subst hc
    have hform : c.opcode.forms = [[.code, .code]] := by cases c <;> rfl
    have hfit := argsFit_of_wellFormed hw hform (by cases c <;> simp [Conditional.opcode])
    obtain ⟨arg, arg', harg, harg', rfl⟩ := argsFit_two.mp hfit
    obtain ⟨a, rfl⟩ := Arg.fits_code.mp harg
    obtain ⟨b, rfl⟩ := Arg.fits_code.mp harg'
    refine Rule.failsBy_conditional slot (.ok _) ?_
    rintro p ⟨⟩ x rest ps qs rfl haccepts hps hqs
    obtain ⟨ps', qs', hx⟩ := Conditional.accepts_iff.mp haccepts
    cases hx.parts.1.symm.trans hps
    cases hx.parts.2.symm.trans hqs
    exact ⟨enter (.onTrue hx), enter (.onFalse hx)⟩
  rw [rule_check, count_of_wellFormed hw, Outcome.ok_bind]
  cases op with
  | lambda =>
    obtain ⟨arg, rest, harg, hrest, rfl⟩ := argsFit_cons.mp (argsFit_of_wellFormed hw rfl (by simp))
    obtain ⟨arg', arg'', harg', harg'', rfl⟩ := argsFit_two.mp hrest
    obtain ⟨t, rfl⟩ := Arg.fits_type.mp harg
    obtain ⟨u, rfl⟩ := Arg.fits_type.mp harg'
    obtain ⟨body, rfl⟩ := Arg.fits_code.mp harg''
    exact Rule.failsBy_lambda slot (enter .lambda)
  | dip =>
    obtain ⟨n, body, hdip⟩ := isDip_of_wellFormed hw
    rw [Rule.ofOpcode, hdip.dipOperands, Outcome.ok_bind]
    exact Rule.failsBy_dip slot fun hn => enter (.dip hdip hn)
  | loop =>
    obtain ⟨body, rfl⟩ := code_of_wellFormed hw rfl (by simp)
    refine Rule.failsBy_loop slot ?_
    rintro rest rfl
    exact enter .loop
  | iter =>
    obtain ⟨body, rfl⟩ := code_of_wellFormed hw rfl (by simp)
    refine Rule.failsBy_iter slot ?_
    rintro x t rest rfl ht
    exact enter (.iter ht)
  | ifBool => exact conditional .ifBool rfl
  | ifNone => exact conditional .ifNone rfl
  | ifLeft => exact conditional .ifLeft rfl
  | ifCons => exact conditional .ifCons rfl
  | _ => exact failsBy_plain own excuse hw rfl

end

end

end Instr

/-- The instructions that the check of code comes to, each with the context and the slots it finds: the first one, those
after an instruction that is accepted and left, and those of a body that is entered. -/
inductive Reaches : Context → List Ty → List Instr → Context → List Ty → Instr → Prop where
  | first {ctx : Context} {slots : List Ty} {i : Instr} {rest : List Instr} :
    Reaches ctx slots (i :: rest) ctx slots i
  | later {ctx ctx' : Context} {slots left found : List Ty} {i j : Instr} {rest : List Instr} :
    i.check.rule ctx slots = .ok left → isDiverged left = false →
    Reaches ctx left rest ctx' found j → Reaches ctx slots (i :: rest) ctx' found j
  | nested {ctx ctx' : Context} {slots entered found : List Ty} {i j : Instr}
    {rest body : List Instr} :
    i.Enters slots body entered → ctx.HasRoom → Reaches ctx.deeper entered body ctx' found j →
    Reaches ctx slots (i :: rest) ctx' found j

/-- By induction over code: where well-formed code is called malformed, an instruction has been reached that is excused.
-/
theorem excused_checkCode {code : List Instr} (hw : ∀ i : Instr, i.OccursIn code → i.wellFormed)
    (ctx : Context) (slots : List Ty) :
    FailsBy (fun f => f.isMalformed = false ∨ ∃ ctx' found, ∃ i : Instr, ∃ why,
      Reaches ctx slots code ctx' found i ∧ i.Excuse ctx' found why ∧
        f = .error (.malformed i.opcode why)) ((checkCode code).rule ctx slots) := by
  induction code using code_induction generalizing ctx slots with
  | nil =>
    rw [rule_checkCode_nil]
    exact .ok _
  | cons op args rest nested ih =>
    rw [rule_checkCode_cons]
    refine FailsBy.bind ?_ fun left hleft => ?_
    · refine Instr.failsBy_check (fun f hf => .inl hf) ?_ (hw _ (.here (.head _))) ?_
      · exact fun why hwhy => .inr ⟨ctx, slots, ⟨op, args⟩, why, .first, hwhy, rfl⟩
      · intro body found henters hroom
        have hbody : ∀ i : Instr, i.OccursIn body → i.wellFormed := fun i hi =>
          hw i (.nested (.head _) henters.mem hi)
        refine (nested body henters.mem hbody ctx.deeper found).mono ?_
        rintro f (hf | ⟨ctx', found', i, why, hreaches, hwhy, rfl⟩)
        · exact .inl hf
        · exact .inr ⟨ctx', found', i, why, .nested henters hroom hreaches, hwhy, rfl⟩
    · refine .ite (fun _ => .ok _) fun hd => ?_
      refine (ih (fun i hi => hw i hi.cons) ctx left).mono ?_
      rintro f (hf | ⟨ctx', found', i, why, hreaches, hwhy, rfl⟩)
      · exact .inl hf
      · exact .inr ⟨ctx', found', i, why, .later hleft (by simpa using hd) hreaches, hwhy, rfl⟩

/-- Arguments decide whether an instruction is malformed. It is accepted only if they have a form that its opcode takes;
and in code where all have, no instruction is ever called malformed, unless there is no scope left for a body that is
reached or the index of a `GET` or `UPDATE` is out of range for the pair it finds. -/
theorem malformed_only_with_excuse (s : State) :
    (∀ i : Instr, (i.check.run s).outcome = .ok () → i.wellFormed) ∧
      ∀ code, (∀ i : Instr, i.OccursIn code → i.wellFormed) → ∀ op why,
        ((checkCode code).run s).outcome = .refuse (.malformed op why) →
        ∃ ctx found, ∃ i : Instr, Reaches s.context s.stack.visible code ctx found i ∧
          i.opcode = op ∧ i.Excuse ctx found why := by
  constructor
  · rintro ⟨op, args⟩ hok
    obtain ⟨out, hout⟩ := (instr_confined ⟨op, args⟩).outcome_eq_ok_iff.mp hok
    exact wellFormed_of_rule hout
  · intro code hw op why hrefused
    have hrule := (Check.rule_eq_error_iff (checkCode_confined code)).mpr hrefused
    obtain hf | ⟨ctx, found, i, why', hreaches, hexcuse, hf⟩ := excused_checkCode hw _ _ _ hrule
    · cases hf
    · cases hf
      exact ⟨ctx, found, i, hreaches, rfl, hexcuse⟩

/-- A comb index that the pair below a hidden slot does not have, in code that is well formed. -/
theorem malformed_only_with_excuse_dip :
    let pair : Instr := ⟨.pair, [.ofInt 2]⟩
    let code : List Instr := [⟨.dip, [.code [.get 5]]⟩]
    let s : State := ⟨.ofConfig {}, ⟨[.unit, .pair .int .nat], []⟩⟩
    ((pair.check.run s).outcome = .ok () ∧ pair.wellFormed) ∧
      (∀ i : Instr, i.OccursIn code → i.wellFormed) ∧
      ((checkCode code).run s).outcome =
        .refuse (.malformed .get (.indexOutOfRange 5 (.pair .int .nat))) ∧
      ∃ ctx found, ∃ i : Instr, Reaches s.context s.stack.visible code ctx found i ∧
        i.opcode = .get ∧ i.Excuse ctx found (.indexOutOfRange 5 (.pair .int .nat)) := by
  intro pair code s
  have haccepted : (pair.check.run s).outcome = .ok () := by
    simp only [pair, s]
    cbv
  have hw : ∀ i : Instr, i.OccursIn code → i.wellFormed := by
    intro i hi
    cases hi with
    | here hm =>
      cases List.mem_singleton.mp hm
      decide
    | nested hm hbody hi =>
      cases List.mem_singleton.mp hm
      cases List.mem_singleton.mp hbody
      cases hi with
      | here hm =>
        cases List.mem_singleton.mp hm
        decide
      | nested hm hbody =>
        cases List.mem_singleton.mp hm
        cases List.mem_singleton.mp hbody
  have hrefused : ((checkCode code).run s).outcome =
      .refuse (.malformed .get (.indexOutOfRange 5 (.pair .int .nat))) := by
    simp only [code, s]
    cbv
  obtain ⟨hfirst, hsecond⟩ := malformed_only_with_excuse s
  exact ⟨⟨haccepted, hfirst pair haccepted⟩, hw, hrefused, hsecond code hw _ _ hrefused⟩

end Michelson

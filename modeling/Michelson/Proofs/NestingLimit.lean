import Michelson.Proofs.Causes

namespace Michelson

/-- Refused since code would be nested deeper than this limit allows. -/
def IsCut {α : Type} (limit : Nat) (o : Outcome TypeError α) : Prop :=
  ∃ op, o = .refuse (.malformed op (.tooDeep limit))

/-- The same place in a check under a limit that is at least as large. -/
structure Context.Relaxes (larger ctx : Context) : Prop where
  depth : larger.depth = ctx.depth
  limit : ctx.config.maxNestingDepth ≤ larger.config.maxNestingDepth

/-- A place in a check that is further in by so many scopes, and leaves at most as much room for others. -/
structure Context.Sinks (d : Nat) (ctx inner : Context) : Prop where
  depth : inner.depth = ctx.depth + d
  room : inner.config.maxNestingDepth ≤ ctx.config.maxNestingDepth + d

theorem Context.Sinks.deeper {d : Nat} {ctx inner : Context} (h : ctx.Sinks d inner) :
    ctx.deeper.Sinks d inner.deeper := by
  refine ⟨?_, h.room⟩
  have := h.depth
  change inner.depth + 1 = ctx.depth + 1 + d
  omega

theorem Context.Sinks.hasRoom {d : Nat} {ctx inner : Context} (h : ctx.Sinks d inner)
    (hr : inner.HasRoom) : ctx.HasRoom := by
  have := h.depth
  have := h.room
  unfold HasRoom at hr ⊢
  omega

def Event.sink (d : Nat) : Event → Event
  | entering op depth => entering op (depth + d)
  | leaving op depth => leaving op (depth + d)
  | event => event

def Effect.sink {α : Type} (d : Nat) (e : Effect α) : Effect α :=
  { e with events := e.events.map (Event.sink d) }

theorem Effect.sink_zero {α : Type} (e : Effect α) : e.sink 0 = e := by
  have hevent : Event.sink 0 = id := by
    funext event
    cases event <;> rfl
  rw [sink, hevent, List.map_id]

namespace Check

variable {α : Type}

/-- A check that is refused for its depth, or does the same further out, where there is at least as much room. -/
def CutBelow (d : Nat) (m : Check α) : Prop :=
  ∀ ctx inner slots, ctx.Sinks d inner →
    IsCut inner.config.maxNestingDepth (m.effect inner slots).outcome ∨
      m.effect inner slots = (m.effect ctx slots).sink d

/-- Everything that checks are made of is cut by the limit only. -/
theorem closed_cutBelow (d : Nat) : Closed fun _ m => m.Confined ∧ m.CutBelow d where
  lift _ := ⟨.lift _, fun _ _ _ _ => .inr rfl⟩
  edit hm := ⟨.edit hm, fun _ _ _ _ => .inr rfl⟩
  checked _ _ := ⟨.emit _, fun _ _ _ _ => .inr rfl⟩
  diverges _ _ := ⟨.emit _, fun _ _ _ _ => .inr rfl⟩
  bind := by
    rintro α β m f ⟨hc, hm⟩ hf
    refine ⟨.bind hc fun a => (hf a).1, fun ctx inner slots hi => ?_⟩
    have hfirst := hm ctx inner slots hi
    simp only [effect_bind hc]
    generalize m.effect inner slots = first at hfirst ⊢
    rcases hfirst with ⟨op, hop⟩ | rfl
    · obtain ⟨outcome, left, events⟩ := first
      cases hop
      exact .inl ⟨op, rfl⟩
    · obtain ⟨outcome, left, events⟩ := m.effect ctx slots
      cases outcome with
      | error e => exact .inr rfl
      | ok a =>
        rcases (hf a).2 ctx inner left hi with hcut | hsame
        · exact .inl hcut
        · refine .inr ?_
          simp only [Effect.sink, Effect.andThen_ok, hsame, List.map_append]
  protect := by
    rintro α body ⟨hc, hb⟩ n
    refine ⟨.protect hc n, fun ctx inner slots hi => ?_⟩
    simp only [effect_protect hc]
    split
    · exact .inr rfl
    · rcases hb ctx inner (slots.drop n) hi with hcut | hsame
      · exact .inl hcut
      · exact .inr (by rw [hsame]; rfl)
  onStack := by
    rintro body ⟨hc, hb⟩ own
    refine ⟨.onStack hc own, fun ctx inner slots hi => ?_⟩
    simp only [effect_onStack hc]
    rcases hb ctx inner own.visible hi with ⟨op, hop⟩ | hsame
    · exact .inl ⟨op, by rw [hop]; rfl⟩
    · exact .inr (by rw [hsame]; rfl)
  inScope := by
    rintro α body ⟨hc, hb⟩ op
    refine ⟨.inScope hc op, fun ctx inner slots hi => ?_⟩
    simp only [effect_inScope hc]
    by_cases hr : inner.HasRoom
    · rw [if_pos hr, if_pos (hi.hasRoom hr), hi.depth]
      rcases hb ctx.deeper inner.deeper slots hi.deeper with hcut | hsame
      · exact .inl hcut
      · refine .inr ?_
        rw [hsame, Nat.add_right_comm]
        simp [Effect.sink, Effect.inScope, Event.sink]
    · rw [if_neg hr]
      exact .inl ⟨op, rfl⟩

/-- A check that is refused for its depth, or does the same under every larger limit. -/
def CutOnly (m : Check α) : Prop :=
  ∀ ctx larger slots, larger.Relaxes ctx →
    IsCut ctx.config.maxNestingDepth (m.effect ctx slots).outcome ∨
      m.effect larger slots = m.effect ctx slots

theorem cutOnly_iff {m : Check α} : m.CutOnly ↔ m.CutBelow 0 := by
  refine ⟨fun h ctx inner slots hi => ?_, fun h ctx larger slots hl => ?_⟩
  · rw [Effect.sink_zero]
    exact (h inner ctx slots ⟨hi.depth.symm, hi.room⟩).imp_right Eq.symm
  · have hcut := h larger ctx slots ⟨hl.depth.symm, hl.limit⟩
    rw [Effect.sink_zero] at hcut
    exact hcut.imp_right Eq.symm

theorem closed_cutOnly : Closed fun _ m => m.Confined ∧ m.CutOnly := by
  simp only [cutOnly_iff]
  exact closed_cutBelow 0

end Check

/-- Code that is not refused for its depth within a scope does the same outside of it. -/
theorem rule_checkCode_deeper (code : List Instr) (ctx : Context) (slots : List Ty) :
    IsCut ctx.config.maxNestingDepth ((checkCode code).rule ctx.deeper slots) ∨
      (checkCode code).rule ctx slots = (checkCode code).rule ctx.deeper slots := by
  obtain ⟨-, hcut⟩ := (Check.closed_cutBelow 1).checkCode code
  rcases hcut ctx ctx.deeper slots ⟨rfl, Nat.le_succ _⟩ with ⟨op, hop⟩ | hsame
  · refine .inl ⟨op, ?_⟩
    rw [Check.rule, Effect.left, hop]
    rfl
  · refine .inr ?_
    rw [Check.rule, Check.rule, hsame]
    rfl

theorem Check.Confined.isCut_rule_iff {m : Check Unit} (hm : m.Confined) {ctx : Context}
    {slots : List Ty} (frames : List (List Ty)) {limit : Nat} :
    IsCut limit (m.rule ctx slots) ↔ IsCut limit (m.run ⟨ctx, ⟨slots, frames⟩⟩).outcome := by
  refine exists_congr fun op => ?_
  exact rule_eq_error_iff hm (s := ⟨ctx, ⟨slots, frames⟩⟩)

namespace Body

variable (code : List Instr) (op : Opcode)

theorem rule_of_hasRoom {ctx : Context} (h : ctx.HasRoom) :
    Body.rule ⟨code, checkCode code⟩ op ctx = (checkCode code).rule ctx.deeper := by
  funext slots
  rw [Body.rule, Check.rule_inScope _ _ (checkCode_confined code), if_pos h]

/-- A body is refused for its depth if there is no room for a scope. -/
theorem isCut_of_not_hasRoom {ctx : Context} (h : ¬ctx.HasRoom) (slots : List Ty) :
    IsCut ctx.config.maxNestingDepth (Body.rule ⟨code, checkCode code⟩ op ctx slots) := by
  rw [Body.rule, Check.rule_inScope _ _ (checkCode_confined code), if_neg h]
  exact ⟨op, rfl⟩

/-- A body in a scope does what it does outside of it, unless it is refused for its depth. -/
theorem rule_cut_or_same (ctx : Context) (slots : List Ty) :
    IsCut ctx.config.maxNestingDepth (Body.rule ⟨code, checkCode code⟩ op ctx slots) ∨
      Body.rule ⟨code, checkCode code⟩ op ctx slots = (checkCode code).rule ctx slots := by
  by_cases hr : ctx.HasRoom
  · rw [rule_of_hasRoom code op hr]
    exact (rule_checkCode_deeper code ctx slots).imp_right Eq.symm
  · exact .inl (isCut_of_not_hasRoom code op hr slots)

end Body

mutual

/-- How many code arguments are nested in each other at most. -/
def codeNesting : List Instr → Nat
  | [] => 0
  | i :: rest => max i.nesting (codeNesting rest)

def Instr.nesting : Instr → Nat
  | ⟨_, args⟩ => argsNesting args

def argsNesting : List Arg → Nat
  | [] => 0
  | .code body :: rest => max (codeNesting body + 1) (argsNesting rest)
  | .type _ :: rest | .literal _ :: rest => argsNesting rest

end

theorem codeNesting_lt_argsNesting {body : List Instr} :
    ∀ {args : List Arg}, Arg.code body ∈ args → codeNesting body < argsNesting args
  | .code code :: args, h => by
    rw [argsNesting]
    rcases List.mem_cons.mp h with h | h
    · cases h
      omega
    · have := codeNesting_lt_argsNesting h
      omega
  | .type _ :: args, h | .literal _ :: args, h => by
    rw [argsNesting]
    exact codeNesting_lt_argsNesting (by simpa using h)

/-- Only code that is nested deeper than the limit is refused for it. -/
theorem FailsAt.lt_of_tooDeep {ctx : Context} {slots : List Ty} {code : List Instr} {op : Opcode}
    {n : Nat} (h : FailsAt ctx slots code (.error (.malformed op (.tooDeep n)))) :
    ctx.config.maxNestingDepth < ctx.depth + codeNesting code := by
  generalize hf : (Failure.error (.malformed op (.tooDeep n)) : Failure TypeError) = f at h
  induction h with
  | own hc =>
    subst hf
    cases hc with
    | malformed hwhy => exact absurd rfl (hwhy n)
  | noRoom hm hroom =>
    have := codeNesting_lt_argsNesting hm
    rw [codeNesting, Instr.nesting]
    unfold Context.HasRoom at hroom
    omega
  | @nested ctx _ _ _ _ _ _ _ hm _ _ ih =>
    have hlt := ih hf
    have := codeNesting_lt_argsNesting hm
    rw [codeNesting, Instr.nesting]
    change ctx.config.maxNestingDepth < ctx.depth + 1 + _ at hlt
    omega
  | later _ _ ih =>
    have := ih hf
    rw [codeNesting]
    omega

/-- Under a limit, code is refused since it is nested deeper than that, or it does what it does under every larger
limit. If it is not nested deeper than the limit leaves room for, it is never refused for its depth. -/
theorem limit_only_cuts (code : List Instr) (stack : Stack) (depth limit : Nat) :
    let run (limit : Nat) := (checkCode code).run ⟨⟨⟨limit⟩, depth⟩, stack⟩
    (∀ larger, limit ≤ larger →
      (∃ op, (run limit).outcome = .refuse (.malformed op (.tooDeep limit))) ∨
        (run larger).outcome = (run limit).outcome ∧
          (run larger).state.stack = (run limit).state.stack ∧
          (run larger).events = (run limit).events) ∧
    (depth + codeNesting code ≤ limit →
      ∀ op n, (run limit).outcome ≠ .refuse (.malformed op (.tooDeep n))) := by
  intro run
  obtain ⟨slots, frames⟩ := stack
  obtain ⟨hc, hcut⟩ := Check.closed_cutOnly.checkCode code
  refine ⟨fun larger hl => ?_, fun hfits op n ho => ?_⟩
  · have hlimit := hc ⟨⟨limit⟩, depth⟩ slots frames
    have hlarger := hc ⟨⟨larger⟩, depth⟩ slots frames
    simp only [run, Check.run, hlimit, hlarger]
    rcases hcut ⟨⟨limit⟩, depth⟩ ⟨⟨larger⟩, depth⟩ slots ⟨rfl, hl⟩ with hcut | hsame
    · exact .inl hcut
    · rw [hsame]
      exact .inr ⟨rfl, rfl, rfl⟩
  · have hr := (Check.rule_eq_error_iff hc).mpr ho
    have hdeep := (failsAt_checkCode code _ _ _ hr).lt_of_tooDeep
    exact absurd hfits (Nat.not_le.mpr hdeep)

/-- From depth one, a loop within a dip is cut under a limit of two. Under a limit of three it passes, as it does under
one of a thousand. -/
theorem limit_only_cuts_loop_in_dip :
    let again : Instr := ⟨.push, [.type .bool, .literal (.bool true)]⟩
    let code : List Instr := [⟨.dip, [.code [⟨.loop, [.code [again]]⟩]]⟩]
    let run (limit : Nat) := (checkCode code).run ⟨⟨⟨limit⟩, 1⟩, .ofSlots [.unit, .bool, .int]⟩
    (run 2).outcome = .refuse (.malformed .loop (.tooDeep 2)) ∧
      (∀ op n, (run 3).outcome ≠ .refuse (.malformed op (.tooDeep n))) ∧
      (run 1000).outcome = (run 3).outcome ∧ (run 1000).state.stack = (run 3).state.stack := by
  intro again code run
  obtain ⟨hcut, hfits⟩ := limit_only_cuts code (.ofSlots [.unit, .bool, .int]) 1 3
  have hroom := hfits (by decide)
  refine ⟨?_, hroom, ?_⟩
  · simp only [run]
    cbv
  · rcases hcut 1000 (by decide) with ⟨op, hop⟩ | ⟨houtcome, hstack, -⟩
    · exact absurd hop (hroom op 3)
    · exact ⟨houtcome, hstack⟩

end Michelson

import Michelson.Proofs.Confined

namespace Michelson

def Event.isScope : Event → Bool
  | .entering .. | .leaving .. => true
  | .checked .. | .diverges .. => false

/-- Scopes next to each other and within each other. Each is left with the instruction and the depth with which it was
entered. -/
inductive WellBracketed : List Event → Prop where
  | nil : WellBracketed []
  | scope {op : Opcode} {depth : Nat} {inner rest : List Event} :
    WellBracketed inner → WellBracketed rest →
    WellBracketed (.entering op depth :: (inner ++ .leaving op depth :: rest))

/-- The open scopes after an event, the innermost first, given those before it. -/
def Event.track (opened : List (Opcode × Nat)) : Event → List (Opcode × Nat)
  | .entering op depth => (op, depth) :: opened
  | .leaving .. => opened.tail
  | .checked .. | .diverges .. => opened

def openScopes (events : List Event) : List (Opcode × Nat) :=
  events.foldl Event.track []

/-- What is reported at a depth: each scope is one deeper than what it is opened in, and within the limit. -/
inductive Nested (limit : Nat) : Nat → List Event → Prop where
  | nil {depth : Nat} : Nested limit depth []
  | other {depth : Nat} {e : Event} {rest : List Event} :
    e.isScope = false → Nested limit depth rest → Nested limit depth (e :: rest)
  | scope {depth : Nat} {op : Opcode} {inner rest : List Event} :
    depth < limit → Nested limit (depth + 1) inner → Nested limit depth rest →
    Nested limit depth (.entering op (depth + 1) :: (inner ++ .leaving op (depth + 1) :: rest))

theorem Event.track_of_other {e : Event} (h : e.isScope = false) (opened : List (Opcode × Nat)) :
    Event.track opened e = opened := by
  cases e with
  | entering op depth => cases h
  | leaving op depth => cases h
  | checked op slots => rfl
  | diverges op side => rfl

namespace Nested

variable {limit depth : Nat} {events : List Event}

theorem append {more : List Event} (h : Nested limit depth events)
    (hm : Nested limit depth more) : Nested limit depth (events ++ more) := by
  induction h with
  | nil => exact hm
  | other he _ ih => exact .other he (ih hm)
  | scope hd hi _ _ ih =>
    rw [List.cons_append, List.append_assoc, List.cons_append]
    exact .scope hd hi (ih hm)

/-- What is reported at a depth is well bracketed. -/
theorem wellBracketed (h : Nested limit depth events) :
    WellBracketed (events.filter Event.isScope) := by
  induction h with
  | nil => exact .nil
  | other he _ ih => simpa [he] using ih
  | scope _ _ _ ihi ihr =>
    simp only [List.filter_cons, List.filter_append, Event.isScope, if_true]
    exact .scope ihi ihr

/-- Every scope that is entered is left, so those open before are those open afterwards. -/
theorem track (h : Nested limit depth events) (opened : List (Opcode × Nat)) :
    events.foldl Event.track opened = opened := by
  induction h generalizing opened with
  | nil => rfl
  | other he _ ih => rw [List.foldl_cons, Event.track_of_other he, ih]
  | scope _ _ _ ihi ihr =>
    rw [List.foldl_cons, List.foldl_append, ihi, List.foldl_cons]
    exact ihr opened

/-- A scope is entered one deeper than all that are open. `opened` are those open at `depth`. -/
theorem depth_of_entering (h : Nested limit depth events) {before after : List Event}
    {op : Opcode} {n : Nat} (opened : List (Opcode × Nat))
    (he : events = before ++ .entering op n :: after) :
    n + opened.length = depth + (before.foldl Event.track opened).length + 1 ∧ n ≤ limit := by
  induction h generalizing before after opened with
  | nil => simp at he
  | other hother _ ih =>
    cases before with
    | nil =>
      cases he
      cases hother
    | cons e before =>
      obtain ⟨rfl, hrest⟩ := List.cons.inj he
      rw [List.foldl_cons, Event.track_of_other hother]
      exact ih opened hrest
  | @scope depth opener inner rest hd hinner _ ihi ihr =>
    cases before with
    | nil =>
      cases he
      exact ⟨by simp; omega, hd⟩
    | cons e before =>
      obtain ⟨rfl, hrest⟩ := List.cons.inj he
      rw [List.foldl_cons]
      -- the scope that is entered lies within this one, or beyond the event that closes this one
      rcases List.append_eq_append_iff.mp hrest with ⟨tail, rfl, htail⟩ | ⟨tail, rfl, htail⟩
      · cases tail with
        | nil => cases htail
        | cons e tail =>
          obtain ⟨rfl, hafter⟩ := List.cons.inj htail
          rw [List.foldl_append, hinner.track]
          exact ihr opened hafter
      · cases tail with
        | nil => cases htail
        | cons e tail =>
          obtain ⟨rfl, -⟩ := List.cons.inj htail
          obtain ⟨hn, hl⟩ := ihi ((opener, depth + 1) :: opened) rfl
          refine ⟨?_, hl⟩
          simp only [Event.track, List.length_cons] at hn ⊢
          omega

/-- A scope is left at a depth to which it was entered. -/
theorem depth_of_leaving (h : Nested limit depth events) {op : Opcode} {n : Nat}
    (hm : .leaving op n ∈ events) : depth < n ∧ n ≤ limit := by
  induction h with
  | nil => simp at hm
  | other he _ ih =>
    rcases List.mem_cons.mp hm with rfl | hm
    · cases he
    · exact ih hm
  | scope hd _ _ ihi ihr =>
    simp only [List.mem_cons, reduceCtorEq, false_or, List.mem_append, Event.leaving.injEq] at hm
    rcases hm with hm | ⟨-, rfl⟩ | hm
    · have := ihi hm
      omega
    · omega
    · exact ihr hm

end Nested

namespace Check

variable {α : Type}

def KeepsOrder (m : Check α) : Prop :=
  ∀ ctx slots, Nested ctx.config.maxNestingDepth ctx.depth (m.effect ctx slots).events

/-- Everything that checks are made of keeps its scopes in order. -/
theorem closed_keepsOrder : Closed fun _ m => m.Confined ∧ m.KeepsOrder where
  lift _ := ⟨.lift _, fun _ _ => .nil⟩
  edit hm := ⟨.edit hm, fun _ _ => .nil⟩
  checked _ _ := ⟨.emit _, fun _ _ => .other rfl .nil⟩
  diverges _ _ := ⟨.emit _, fun _ _ => .other rfl .nil⟩
  bind := by
    rintro α β m f ⟨hc, hm⟩ hf
    refine ⟨.bind hc fun a => (hf a).1, fun ctx slots => ?_⟩
    have hfirst := hm ctx slots
    rw [effect_bind hc]
    generalize m.effect ctx slots = first at hfirst ⊢
    obtain ⟨outcome, left, events⟩ := first
    cases outcome with
    | error e => exact hfirst
    | ok a =>
      rw [Effect.andThen_ok]
      exact hfirst.append ((hf a).2 ctx left)
  protect := by
    rintro α body ⟨hc, hb⟩ n
    refine ⟨.protect hc n, fun ctx slots => ?_⟩
    rw [effect_protect hc]
    split
    · exact .nil
    · exact hb ctx _
  onStack := by
    rintro body ⟨hc, hb⟩ own
    refine ⟨.onStack hc own, fun ctx slots => ?_⟩
    rw [effect_onStack hc]
    exact hb ctx own.visible
  inScope := by
    rintro α body ⟨hc, hb⟩ op
    refine ⟨.inScope hc op, fun ctx slots => ?_⟩
    rw [effect_inScope hc]
    split
    · rename_i hroom
      exact .scope hroom (hb ctx.deeper slots) .nil
    · exact .nil

end Check

/-- Code reports its scopes at the depth at which it is checked. -/
theorem nested_events (code : List Instr) (s : State) :
    Nested s.context.config.maxNestingDepth s.context.depth ((checkCode code).run s).events := by
  obtain ⟨ctx, slots, frames⟩ := s
  obtain ⟨hc, hk⟩ := Check.closed_keepsOrder.checkCode code
  rw [Check.run, hc]
  exact hk ctx slots

/-- Whether code is accepted or refused, the context is given back as it was. The scopes it opens are left in order,
each as it was entered. Where one is entered, the depth given counts it and all that are open, those of the context
included, and it is within the limit. So the depth is never counted beyond the limit, nor down below that of the context
at the start. -/
theorem scope_discipline (code : List Instr) (s : State) :
    let run := (checkCode code).run s
    let limit := s.context.config.maxNestingDepth
    run.state.context = s.context ∧
      WellBracketed (run.events.filter Event.isScope) ∧
      (∀ before op depth after, run.events = before ++ .entering op depth :: after →
        depth = s.context.depth + (openScopes before).length + 1 ∧ depth ≤ limit) ∧
      ∀ op depth, .leaving op depth ∈ run.events → s.context.depth < depth ∧ depth ≤ limit := by
  intro run limit
  have hnested := nested_events code s
  refine ⟨?_, hnested.wellBracketed, fun before op depth after he => ?_, fun op depth hm => ?_⟩
  · have hrun := checkCode_confined code s.context s.stack.visible s.stack.frames
    exact congrArg (fun run => run.state.context) hrun
  · exact hnested.depth_of_entering [] he
  · exact hnested.depth_of_leaving hm

/-- A branch within a `DIP` is refused two scopes above a context that is three deep, with no room for a third. -/
theorem scope_discipline_refused :
    let code : List Instr := [⟨.dip, [.code [⟨.ifBool, [.code [⟨.drop, [.ofInt 3]⟩], .code []]⟩]]⟩]
    let run := (checkCode code).run ⟨⟨⟨5⟩, 3⟩, .ofSlots [.unit, .bool, .nat]⟩
    run.outcome = .refuse (.stackLength (some .drop) 3 1) ∧ run.state.context = ⟨⟨5⟩, 3⟩ ∧
      run.events = [.entering .dip 4, .entering .ifBool 5, .leaving .ifBool 5, .leaving .dip 4] ∧
      5 = 3 + (openScopes [.entering .dip 4]).length + 1 := by
  intro code run
  have hevents : run.events =
      [.entering .dip 4, .entering .ifBool 5, .leaving .ifBool 5, .leaving .dip 4] := by cbv
  obtain ⟨hctx, -, hdepth, -⟩ := scope_discipline code ⟨⟨⟨5⟩, 3⟩, .ofSlots [.unit, .bool, .nat]⟩
  exact ⟨by cbv, hctx, hevents, (hdepth [.entering .dip 4] .ifBool 5 _ hevents).1⟩

end Michelson

import Michelson.Proofs.Divergence
import Michelson.Proofs.TypeEquality

namespace Michelson

namespace Contract

def start (c : Contract) : Stack :=
  .ofSlots [.pair c.parameter c.storage]

theorem check_confined (c : Contract) : c.check.Confined :=
  .bind (.onStack (checkCode_confined c.code) _) fun _ => .lift _

/-- A contract is accepted if its code leaves one slot that is equal to the result asked for. -/
theorem rule_check (c : Contract) (ctx : Context) (slots : List Ty) :
    c.check.rule ctx slots =
      (checkCode c.code).rule ctx [.pair c.parameter c.storage] >>= fun out =>
        (if out.length = 1 ∧ slotsEqual out c.result.visible then pure ()
        else Outcome.refuse (.contractResult (.ofSlots out) c.result)) >>= fun _ => .ok slots := by
  rw [check, checkFragment, Check.rule_onStack_bind ctx slots (checkCode_confined c.code)]
  simp only [Check.rule_lift]
  rfl

/-- A contract is accepted if its code is, and leaves one slot that is equal to the result it must have. -/
theorem check_eq_ok_iff (c : Contract) (s : State) :
    (c.check.run s).outcome = .ok () ↔
      ((checkCode c.code).run ⟨s.context, c.start⟩).outcome = .ok () ∧
        ∃ t, ((checkCode c.code).run ⟨s.context, c.start⟩).state.stack.visible = [t] ∧
          slotsEqual [t] c.result.visible := by
  have hcode := checkCode_confined c.code
  constructor
  · intro hok
    have hr := (Check.rule_eq_ok_iff c.check_confined).mpr ⟨hok, rfl⟩
    rw [rule_check] at hr
    obtain ⟨out, hout, hr⟩ := Outcome.bind_eq_ok.mp hr
    obtain ⟨_, hr, -⟩ := Outcome.bind_eq_ok.mp hr
    obtain ⟨ho, hl⟩ := (Check.rule_eq_ok_iff hcode (s := ⟨s.context, c.start⟩)).mp hout
    split at hr
    · rename_i h
      obtain ⟨t, rfl⟩ := List.length_eq_one_iff.mp h.1
      exact ⟨ho, t, hl, h.2⟩
    · cases hr
  · rintro ⟨ho, t, hl, heq⟩
    have hout := (Check.rule_eq_ok_iff hcode (s := ⟨s.context, c.start⟩)).mpr ⟨ho, hl⟩
    have hr : c.check.rule s.context s.stack.visible = .ok s.stack.visible := by
      rw [rule_check]
      refine Outcome.bind_eq_ok.mpr ⟨[t], hout, ?_⟩
      rw [if_pos ⟨rfl, heq⟩]
      rfl
    exact ((Check.rule_eq_ok_iff c.check_confined).mp hr).1

/-- One slot equals the result of a contract if it is never reached, or as a type. -/
theorem slotsEqual_result (c : Contract) (t : Ty) :
    slotsEqual [t] c.result.visible =
      (t.isUniversal || t.equals (.pair (.list .operation) c.storage.simplify)) := by
  simp [result, Stack.ofSlots, slotsEqual, Ty.isUniversal]

end Contract

/-- A contract that is accepted fails on every way through, or leaves what stands for its operations and its storage. If
the storage has no records, every contract that leaves this is accepted. What a lambda only remembers is not
restricted. -/
theorem contract_result_shape (c : Contract) (s : State)
    (hp : c.parameter.within Fragment.noUniversal.outer)
    (hs : c.storage.within Fragment.noUniversal.outer)
    (hc : codeWithin Fragment.noUniversal.outer c.code) :
    let run := (checkCode c.code).run ⟨s.context, c.start⟩
    let left := run.state.stack.visible
    let shape := Ty.pair (.list .operation) c.storage.expand
    ((c.check.run s).outcome = .ok () →
      run.outcome = .ok () ∧
        (left = [.universal] ∧ codeFails c.code ∨ ∃ t, left = [t] ∧ t.expand = shape)) ∧
    (c.storage.within Fragment.noRecord.outer → run.outcome = .ok () →
      ∀ t, left = [t] → t.expand = shape → (c.check.run s).outcome = .ok ()) := by
  intro run left shape
  have hresult : (Ty.pair (.list .operation) c.storage.simplify).expand = shape := by
    simp [shape, Ty.expand, Ty.expand_simplify]
  refine ⟨fun hok => ?_, fun hrec ho t hl ht => ?_⟩
  · obtain ⟨ho, t, hl, heq⟩ := (c.check_eq_ok_iff s).mp hok
    refine ⟨ho, ?_⟩
    have hstart : typesWithin Fragment.noUniversal.outer [.pair c.parameter c.storage] := by
      simp [Ty.within, hp, hs]
    have hr : (checkCode c.code).rule s.context [.pair c.parameter c.storage] = .ok left :=
      (Check.rule_eq_ok_iff (checkCode_confined c.code)).mpr ⟨ho, rfl⟩
    rcases settles_checkCode _ c.code hc s.context _ _ hstart hr with hw | hlost
    · right
      have htw : t.within Fragment.noUniversal.outer := by
        rw [show left = [t] from hl, typesWithin_cons, Bool.and_eq_true] at hw
        exact hw.1
      have hrw : (Ty.pair (.list .operation) c.storage.simplify).within
          Fragment.noUniversal.outer := by
        simp [Ty.within, Ty.within_simplify hs]
      rw [c.slotsEqual_result, Ty.isUniversal_of_within rfl htw, Bool.false_or] at heq
      exact ⟨t, hl, (Ty.expand_eq_of_equals rfl htw hrw heq).trans hresult⟩
    · exact .inl hlost
  · have hrw : (Ty.pair (.list .operation) c.storage.simplify).within Fragment.noRecord.outer := by
      simp [Ty.within, Ty.within_simplify hrec]
    refine (c.check_eq_ok_iff s).mpr ⟨ho, t, hl, ?_⟩
    rw [c.slotsEqual_result, Bool.or_eq_true]
    exact .inr (Ty.equals_of_expand_eq hrw (ht.trans hresult.symm))

/-- A record is stored where its fields are declared as a pair. -/
theorem contract_result_shape_record :
    let point : Ty := .record ⟨"point", [⟨"x", .int⟩, ⟨"y", .nat⟩]⟩
    let c : Contract := ⟨point, .pair .int .nat,
      [⟨.car, []⟩, ⟨.nil, [.type .operation]⟩, ⟨.pair, []⟩]⟩
    (c.check.run ⟨.ofConfig {}, .ofSlots []⟩).outcome = .ok () := by
  intro point c
  have h := contract_result_shape c ⟨.ofConfig {}, .ofSlots []⟩ rfl rfl rfl
  exact h.2 rfl rfl (.pair (.list .operation) point) rfl rfl

end Michelson

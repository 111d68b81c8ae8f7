import Mininet.Identity.Obtained

/-!
# Witness policies over runs of a controller

The policy in force is the one of the last establishment, and every establishment declares one: a
rotation that names no witnesses retires those of before. Only the calls that append no
establishment keep a policy, and a set of more witnesses than a policy may have is never one.
-/

namespace Mininet.Identity

open Codec Fallible Stateful List

section

variable [KeyPrimitives]

namespace Controller

/-! ### Runs -/

/-- Calls made one after the other, all of them successful. -/
inductive Runs : Controller → List Call → Controller → Prop
  | nil (c : Controller) : Runs c [] c
  | cons {c mid c' : Controller} {call : Call} {calls : List Call}
      (performed : call.perform.on c = (.ok (), mid)) (rest : Runs mid calls c') :
      Runs c (call :: calls) c'

variable {c c' : Controller} {kinds : List EventKind} {threshold : UInt32} {calls : List Call}
  {est : Establishment} {call : Call}

/-- A move appends an event of its kind. -/
lemma Move.events_eq {kind : EventKind} (h : Move c kind c') :
    ∃ ev, c'.events = c.events ++ [ev] ∧ ev.kind = kind := by
  cases h with
  | rotation valid built | interaction length_le built
  | sealed length_le devices built => exact ⟨_, rfl, built.kind_eq⟩

/-- Moves append events of their kinds. -/
lemma Moves.events_eq (h : Moves c kinds c') :
    ∃ evs : List Event, c'.events = c.events ++ evs ∧ evs.map Event.kind = kinds := by
  induction h with
  | refl c => exact ⟨[], by simp, rfl⟩
  | step first rest ih =>
    obtain ⟨ev, hev, rfl⟩ := first.events_eq
    obtain ⟨evs, hevs, rfl⟩ := ih
    exact ⟨ev :: evs, by rw [hevs, hev]; simp, rfl⟩

lemma Moves.scid_eq (h : Moves c kinds c') : c'.scid = c.scid := by
  refine h.invariant (P := fun c' => c'.scid = c.scid) (fun mid kind mid' hmid hmove => ?_) rfl
  cases hmove with
  | rotation valid built | interaction length_le built
  | sealed length_le devices built => exact hmid

/-- A run extends the log. -/
lemma Runs.events_eq (h : Runs c calls c') :
    c'.scid = c.scid ∧ ∃ evs, c'.events = c.events ++ evs := by
  induction h with
  | nil c => exact ⟨rfl, [], by simp⟩
  | cons performed rest ih =>
    obtain ⟨kinds, -, hmoves⟩ := Call.perform_ok performed
    obtain ⟨evs, hevs, -⟩ := hmoves.events_eq
    obtain ⟨hscid, evs', hevs'⟩ := ih
    exact ⟨hscid.trans hmoves.scid_eq, evs ++ evs', by rw [hevs', hevs, append_assoc]⟩

/-! ### The last establishment -/

/-- The ordinary rotations of keys. -/
def Call.Rotates : Call → Prop
  | .rotate _ | .rotateWithNext _ | .rotateWithNextAndThreshold _ _ => True
  | _ => False

/-- The calls that declare who the witnesses are. -/
def Call.SetsWitnesses : Call → Prop
  | .appointWitnesses _ _ _ | .retireWitnesses _ => True
  | _ => False

/-- A rotation names no witnesses, and no other call that leaves the witnesses alone establishes
anything. -/
lemma Call.Appends.witnesses (h : call.Appends c kinds) (hcall : ¬ call.SetsWitnesses) :
    (call.Rotates ∧ ∃ est, kinds = [.rotation est] ∧ est.witnesses = []) ∨
      ¬ call.Rotates ∧ ∀ kind ∈ kinds, kind.establishment? = none := by
  cases call with
  | rotate entropy =>
    obtain ⟨newNext, rfl⟩ := h
    exact .inl ⟨trivial, _, rfl, rfl⟩
  | rotateWithNext newNext | rotateWithNextAndThreshold newNext t => exact .inl ⟨trivial, _, h, rfl⟩
  | appointWitnesses entropy witnesses t | retireWitnesses entropy => exact absurd trivial hcall
  | interact anchors =>
    cases h
    exact .inr ⟨id, by simp [EventKind.establishment?]⟩
  | sealAll seals =>
    cases h
    exact .inr ⟨id, by simp [EventKind.establishment?]⟩
  | delegateDevice device capabilities =>
    cases h
    exact .inr ⟨id, by simp [EventKind.establishment?]⟩
  | revokeDevice device =>
    cases h
    exact .inr ⟨id, by simp [EventKind.establishment?]⟩
  | revokeDevicesExcept keep =>
    cases h
    exact .inr ⟨id, by simp [EventKind.establishment?]⟩

/-- The last establishment names these witnesses, with this threshold. -/
def Declares (c : Controller) (witnesses : List Bytes) (threshold : UInt32) : Prop :=
  ∃ sn est, Kel.lastEstablishment c.events = some (sn, est) ∧ est.Valid ∧
    est.witnesses = witnesses ∧ est.witnessThreshold = threshold

omit [KeyPrimitives] in
lemma lastEstablishment_append (events : List Event) (ev : Event) :
    Kel.lastEstablishment (events ++ [ev]) =
      (ev.kind.establishment?.map fun est => (ev.sn, est)).or (Kel.lastEstablishment events) := by
  rw [Kel.lastEstablishment, reverse_append, reverse_singleton, singleton_append,
    List.findSome?_cons]
  cases ev.kind.establishment? with
  | none => rfl
  | some est => rfl

/-- Where nothing is established, the last establishment stays. -/
lemma Moves.declares {witnesses : List Bytes} (h : Moves c kinds c')
    (hkinds : ∀ kind ∈ kinds, kind.establishment? = none) (hc : c.Declares witnesses threshold) :
    c'.Declares witnesses threshold := by
  induction h with
  | refl c => exact hc
  | step first rest ih =>
    obtain ⟨hkind, hrest⟩ := forall_mem_cons.mp hkinds
    obtain ⟨ev, hev, rfl⟩ := first.events_eq
    refine ih hrest ?_
    rw [Declares, hev, lastEstablishment_append, hkind]
    exact hc

/-- A rotation establishes what it says. -/
lemma Moves.declares_rotation
    (h : Moves c [.rotation est] c') : c'.Declares est.witnesses est.witnessThreshold := by
  cases h with
  | step first rest =>
    cases rest
    obtain ⟨ev, hev, hkind⟩ := first.events_eq
    have hvalid : est.Valid := by
      cases first with
      | rotation valid built => exact validateEstablishment_ok.mp valid
    refine ⟨ev.sn, est, ?_, hvalid, rfl, rfl⟩
    rw [hev, lastEstablishment_append, hkind]
    rfl

/-- One call, with the witnesses as they were or none any more. -/
lemma Declares.perform {witnesses : List Bytes} (h : c.Declares witnesses threshold)
    (hcall : ¬ call.SetsWitnesses) (performed : call.perform.on c = (.ok (), c')) :
    (call.Rotates ∧ ∃ t, c'.Declares [] t) ∨ ¬ call.Rotates ∧ c'.Declares witnesses threshold := by
  obtain ⟨kinds, happends, hmoves⟩ := call.perform_ok performed
  rcases happends.witnesses hcall with ⟨hrotates, est, rfl, hnone⟩ | ⟨hrotates, hkinds⟩
  · exact .inl ⟨hrotates, est.witnessThreshold, hnone ▸ hmoves.declares_rotation⟩
  · exact .inr ⟨hrotates, hmoves.declares hkinds h⟩

/-- A run keeps the witnesses if it has no rotation, and loses them otherwise. -/
lemma Declares.runs {witnesses : List Bytes} (h : c.Declares witnesses threshold)
    (hruns : Runs c calls c') (hcalls : ∀ call ∈ calls, ¬ call.SetsWitnesses) :
    ((∀ call ∈ calls, ¬ call.Rotates) ∧ c'.Declares witnesses threshold) ∨
      (∃ call ∈ calls, call.Rotates) ∧ ∃ t, c'.Declares [] t := by
  induction hruns generalizing witnesses threshold with
  | nil c => exact .inl ⟨by simp, h⟩
  | cons performed rest ih =>
    obtain ⟨hcall, hrest⟩ := forall_mem_cons.mp hcalls
    rcases h.perform hcall performed with ⟨hrotates, t, hnone⟩ | ⟨hrotates, hkept⟩
    · refine .inr ⟨⟨_, by simp, hrotates⟩, ?_⟩
      -- once there are none, the run never names any again
      rcases ih hnone hrest with ⟨-, hkept⟩ | ⟨-, hlost⟩
      · exact ⟨t, hkept⟩
      · exact hlost
    · rcases ih hkept hrest with ⟨hnone, hkept⟩ | ⟨⟨call, hmem, hcall⟩, hlost⟩
      · exact .inl ⟨forall_mem_cons.mpr ⟨hrotates, hnone⟩, hkept⟩
      · exact .inr ⟨⟨call, by simp [hmem], hcall⟩, hlost⟩

/-! ### The policy of an establishment -/

/-- Whether the policy in force names these witnesses with this threshold. -/
def PolicyNames (c : Controller) (witnesses : List Did) (threshold : UInt32) : Prop :=
  ∃ policy, c.kel.declaredWitnessPolicy = some policy ∧ policy.witnesses = witnesses ∧
    policy.threshold.toNat = threshold.toNat

lemma mapM_parse {witnesses : List Did} (h : ∀ w ∈ witnesses, w.Valid) :
    (witnesses.map fun did => utf8 did.asStr).mapM
      (fun bytes => do (Did.parse (← ofUtf8 bytes)).toOption) = some witnesses := by
  rw [mapM_some_iff, forall₂_map_left_iff, forall₂_same]
  intro w hw
  have hparse : Did.parse w.asStr = .ok w := h w hw
  simp [hparse, Except.toOption]

lemma policy_some {sn : UInt64} {witnesses : List Did}
    {policy : WitnessPolicy} (hwitnesses : est.witnesses = witnesses.map fun did => utf8 did.asStr)
    (hvalid : ∀ w ∈ witnesses, w.Valid) :
    est.policy sn = some policy ↔ witnesses ≠ [] ∧ est.witnessThreshold.toNat < 2 ^ 16 ∧
      WitnessPolicy.new sn witnesses est.witnessThreshold.toUInt16 = .ok policy := by
  have hok : ∀ x : Except IdentityError WitnessPolicy,
      x.toOption = some policy ↔ x = .ok policy := fun x => by
    cases x <;> simp [Except.toOption]
  rw [Establishment.policy, hwitnesses, mapM_parse hvalid]
  simp only [Option.bind_eq_bind, Option.bind_eq_some_iff, Option.guard_eq_some', ne_eq,
    map_eq_nil_iff, Option.bind_some, hok]
  constructor
  · rintro ⟨-, hne, -, hthreshold, h⟩
    exact ⟨hne, hthreshold, h⟩
  · rintro ⟨hne, hthreshold, h⟩
    exact ⟨(), hne, (), hthreshold, h⟩

/-- Valid identifiers make a policy, unless there are none or too many. -/
lemma Declares.policyNames_iff {witnesses : List Did}
    (h : c.Declares (witnesses.map fun did => utf8 did.asStr) threshold)
    (hvalid : ∀ w ∈ witnesses, w.Valid) :
    c.PolicyNames witnesses threshold ↔ witnesses ≠ [] ∧ witnesses.length ≤ maxWitnesses := by
  obtain ⟨sn, est, hlast, hest, hwitnesses, rfl⟩ := h
  have hpolicy : c.kel.declaredWitnessPolicy = est.policy sn := by
    rw [Kel.declaredWitnessPolicy, Controller.kel, hlast]
    rfl
  rw [PolicyNames, hpolicy]
  simp only [policy_some hwitnesses hvalid, WitnessPolicy.new_ok]
  constructor
  · rintro ⟨policy, ⟨hne, -, ⟨-, -, hlength, -⟩, -⟩, -, -⟩
    exact ⟨hne, hlength⟩
  · rintro ⟨hne, hlength⟩
    rcases hest.witnesses with ⟨hnil, -⟩ | ⟨hpos, hle, hnodup⟩
    · rw [hwitnesses, map_eq_nil_iff] at hnil
      exact absurd hnil hne
    · rw [hwitnesses, length_map] at hle
      rw [hwitnesses] at hnodup
      have hmax : maxWitnesses = 64 := rfl
      have hfit : est.witnessThreshold.toNat < 2 ^ 16 := by omega
      have hnat : est.witnessThreshold.toUInt16.toNat = est.witnessThreshold.toNat := by
        rw [UInt32.toNat_toUInt16]
        omega
      refine ⟨_, ⟨hne, hfit, ⟨?_, ?_, hlength, hnodup.of_map _⟩, rfl⟩, rfl, hnat⟩
      · rw [hnat]
        exact hpos
      · rw [hnat]
        exact hle

/-- Without witnesses there is no policy. -/
lemma Declares.not_policyNames {witnesses : List Did} {t threshold : UInt32}
    (h : c.Declares [] t) : ¬ c.PolicyNames witnesses threshold := by
  rintro ⟨policy, hpolicy, -⟩
  obtain ⟨sn, est, hlast, -, hnone, -⟩ := h
  rw [Kel.declaredWitnessPolicy, Controller.kel, hlast] at hpolicy
  exact ((@policy_some _ _ sn [] _ hnone (by simp)).mp hpolicy).1 rfl

end Controller

end

namespace Controller

end Controller

end Mininet.Identity

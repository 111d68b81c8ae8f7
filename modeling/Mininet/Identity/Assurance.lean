import Mininet.Identity.Witness

/-!
# How sure a verifier can be of a head

A verifier pins the highest sequence number it has seen of every identity and refuses a log that
goes back behind it. A certificate by the witnesses that the log itself declares says more: enough
of them have seen this very head.
-/

namespace Mininet.Identity

open Codec Fallible

/-- The highest sequence number seen of each identity. -/
structure FreshnessPins where
  highestSnSeen : String → Option UInt64

namespace FreshnessPins

def new : FreshnessPins := ⟨fun _ => none⟩

def pinnedSn (pins : FreshnessPins) (scid : String) : Option UInt64 := pins.highestSnSeen scid

/-- Verify a log and compare it with the pin of its identity. -/
def checkAndPin [KeyPrimitives] (pins : FreshnessPins) (kel : Kel) :
    Except IdentityError (UInt64 × FreshnessPins) := do
  let state ← kel.verify
  let pinned := pins.pinnedSn kel.scid
  failIf (pinned.any (state.sn < ·)) (.staleKel (pinned.getD 0) state.sn)
  return (state.sn, ⟨Function.update pins.highestSnSeen kel.scid
    (some (pinned.elim state.sn (max · state.sn)))⟩)

end FreshnessPins

inductive KelAssurance where
  | direct
  | pinned
  | witnessed
  | witnessedRecent
  | duplicityDetected
  deriving DecidableEq, Repr

structure WitnessEvidence where
  certificate : WitnessedEventCertificate
  resolveWitnessKey : WitnessId → Option VerifyingKey
  nowEpoch : UInt64
  maxEpochAge : UInt64

/-- Whether a receipt is not too old; one from the future is not old at all. -/
def WitnessEvidence.Recent (evidence : WitnessEvidence) (r : WitnessReceipt) : Prop :=
  evidence.nowEpoch.toNat - r.statement.observedEpoch.toNat ≤ evidence.maxEpochAge.toNat

instance (evidence : WitnessEvidence) : DecidablePred evidence.Recent := fun _ =>
  inferInstanceAs (Decidable (_ ≤ _))

section

variable [KeyPrimitives] {kel : Kel}

/-- What witness evidence says about a log that was accepted. -/
def assessEvidence (kel : Kel) (evidence : WitnessEvidence) :
    Except IdentityError KelAssurance := do
  let head ← okOr kel.events.getLast? .emptyKel
  let policy ← okOr kel.declaredWitnessPolicy .noWitnessPolicyDeclared
  evidence.certificate.verify policy evidence.resolveWitnessKey
  failIf (evidence.certificate.identity ≠ kel.did ∨ evidence.certificate.sequence ≠ head.sn ∨
    evidence.certificate.eventDigest ≠ head.digest) .witnessReceiptMismatch
  return if ∀ r ∈ evidence.certificate.receipts, evidence.Recent r then .witnessedRecent
    else .witnessed

/-- Classify a log. The pins move once it is accepted, whatever the evidence says. -/
def assessKelAssurance (kel : Kel) (pins : FreshnessPins) (witnessing : Option WitnessEvidence)
    (knownDuplicity : Bool) : Except IdentityError KelAssurance × FreshnessPins :=
  let wasPinned := (pins.pinnedSn kel.scid).isSome
  match pins.checkAndPin kel with
  | .error e       => (.error e, pins)
  | .ok (_, pins') =>
    if knownDuplicity then (.ok .duplicityDetected, pins')
    else
      match witnessing with
      | some evidence => (assessEvidence kel evidence, pins')
      | none          => (.ok (if wasPinned then .pinned else .direct), pins')

/-! ### Evidence -/

/-- Enough of the witnesses that the last establishment declares have each receipted this head. -/
structure Earned (kel : Kel) (evidence : WitnessEvidence) (level : KelAssurance) (sn : UInt64)
    (est : Establishment) (policy : WitnessPolicy) (head : Event) (ws : List WitnessId) : Prop where
  last_establishment : Kel.lastEstablishment kel.events = some (sn, est)
  declared : est.policy sn = some policy
  last_event : kel.events.getLast? = some head
  nodup : ws.Nodup
  enough : est.witnessThreshold.toNat ≤ ws.length
  receipted : ∀ w ∈ ws, w ∈ policy.witnesses ∧ ∃ r ∈ evidence.certificate.receipts,
    r.statement.witnessId = w ∧
    (∃ key, evidence.resolveWitnessKey w = some key ∧ r.verify key = .ok ()) ∧
    r.statement.identity = kel.did ∧ r.statement.sequence = head.sn ∧
    r.statement.eventDigest = head.digest ∧ r.statement.witnessPolicyGeneration = sn ∧
    (level = .witnessedRecent → evidence.Recent r)

lemma exists_earned {evidence : WitnessEvidence} {level : KelAssurance}
    (h : assessEvidence kel evidence = .ok level) :
    ∃ sn est policy head ws, Earned kel evidence level sn est policy head ws := by
  simp only [assessEvidence, ↓failIf_bind_ok, bind_ok] at h
  obtain ⟨head, hhead, policy, hpolicy, ⟨⟩, hverify, hmatch, h⟩ := h
  simp only [not_or, not_not] at hmatch
  obtain ⟨⟨sn, est⟩, hlast, hdeclared⟩ := Option.bind_eq_some_iff.mp (okOr_ok.mp hpolicy)
  obtain ⟨hsn, hthreshold, hfew⟩ := exists_of_policy hdeclared
  obtain ⟨hgeneration, ws, hnodup, henough, hws⟩ :=
    WitnessedEventCertificate.exists_of_verify hverify hfew
  refine ⟨sn, est, policy, head, ws, hlast, hdeclared, okOr_ok.mp hhead, hnodup,
    hthreshold ▸ henough, fun w hw => ?_⟩
  obtain ⟨hmem, r, hr, hid, hreceipt, hkey⟩ := hws w hw
  have hreceipt := failIf_ok.mp hreceipt
  simp only [not_or, not_not] at hreceipt
  obtain ⟨hidentity, hsequence, hdigest, hpolicyGeneration⟩ := hreceipt
  refine ⟨hmem, r, hr, hid, hkey, hidentity.trans hmatch.1, hsequence.trans hmatch.2.1,
    hdigest.trans hmatch.2.2, (hpolicyGeneration.trans hgeneration.symm).trans hsn, ?_⟩
  -- recency was checked for all receipts, the counted ones among them
  rintro rfl
  rw [pure_ok] at h
  split_ifs at h with hrecent
  exact hrecent r hr

/-! ### Pins -/

/-- The pins after any calls, and the logs they accepted on the way. -/
inductive Assessed : FreshnessPins → List Kel → Prop
  | new : Assessed .new []
  | call {pins : FreshnessPins} {accepted : List Kel} (before : Assessed pins accepted) (kel : Kel)
      (witnessing : Option WitnessEvidence) (knownDuplicity : Bool) :
      Assessed (assessKelAssurance kel pins witnessing knownDuplicity).2
        (if (pins.checkAndPin kel).isOk then kel :: accepted else accepted)

/-- What a pin says about the logs that were accepted. -/
def Pins (accepted : List Kel) (scid : String) : Option UInt64 → Prop
  | none   => ∀ k ∈ accepted, k.scid ≠ scid
  | some m => (∃ k ∈ accepted, k.scid = scid ∧ ∃ s, k.verify = .ok s ∧ s.sn = m) ∧
    ∀ k ∈ accepted, k.scid = scid → ∀ s, k.verify = .ok s → s.sn ≤ m

lemma checkAndPin_ok {pins pins' : FreshnessPins} {sn : UInt64}
    (h : pins.checkAndPin kel = .ok (sn, pins')) :
    (∃ state, kel.verify = .ok state ∧ state.sn = sn) ∧
      (∀ m, pins.pinnedSn kel.scid = some m → m ≤ sn) ∧
      pins'.highestSnSeen = Function.update pins.highestSnSeen kel.scid (some sn) := by
  obtain ⟨state, hstate, h⟩ := bind_ok.mp h
  obtain ⟨hfresh, h⟩ := failIf_bind_ok.mp h
  cases h
  refine ⟨⟨state, hstate, rfl⟩, ?_, ?_⟩
  · intro m hm
    rw [hm] at hfresh
    simpa [UInt64.not_lt] using hfresh
  · cases hpinned : pins.pinnedSn kel.scid with
    | none => rfl
    | some m =>
      rw [hpinned] at hfresh
      have hle : m ≤ state.sn := by simpa [UInt64.not_lt] using hfresh
      have hmax : max m state.sn = state.sn := if_pos hle
      rw [Option.elim_some, hmax]

lemma snd_assessKelAssurance {pins : FreshnessPins} (witnessing : Option WitnessEvidence)
    (knownDuplicity : Bool) : (assessKelAssurance kel pins witnessing knownDuplicity).2 =
      match pins.checkAndPin kel with
      | .error _       => pins
      | .ok (_, pins') => pins' := by
  unfold assessKelAssurance
  cases pins.checkAndPin kel with
  | error e => rfl
  | ok x =>
    cases knownDuplicity with
    | true => rfl
    | false => cases witnessing <;> rfl

lemma Assessed.pins {pins : FreshnessPins} {accepted : List Kel} (h : Assessed pins accepted)
    (scid : String) : Pins accepted scid (pins.pinnedSn scid) := by
  induction h with
  | new => exact fun k hk => by cases hk
  | @call pins accepted before kel witnessing knownDuplicity ih =>
    rw [snd_assessKelAssurance]
    cases hcheck : pins.checkAndPin kel with
    | error e => exact ih
    | ok x =>
      obtain ⟨⟨state, hstate, hsn⟩, hfresh, hpins⟩ := checkAndPin_ok hcheck
      change Pins (kel :: accepted) scid (x.2.highestSnSeen scid)
      rw [hpins]
      by_cases hscid : scid = kel.scid
      · subst hscid
        rw [Function.update_self]
        refine ⟨⟨kel, by simp, rfl, state, hstate, hsn⟩, fun k hk hsame s hs => ?_⟩
        rcases List.mem_cons.mp hk with rfl | hk
        · rw [Except.ok.inj (hs.symm.trans hstate), hsn]
          exact UInt64.le_refl _
        · cases hpinned : pins.pinnedSn kel.scid with
          | none =>
            rw [hpinned] at ih
            exact absurd hsame (ih k hk)
          | some m =>
            rw [hpinned] at ih
            exact UInt64.le_trans (ih.2 k hk hsame s hs) (hfresh m hpinned)
      · rw [Function.update_of_ne hscid]
        change Pins (kel :: accepted) scid (pins.pinnedSn scid)
        cases hpinned : pins.pinnedSn scid with
        | none =>
          rw [hpinned] at ih
          exact List.forall_mem_cons.mpr ⟨Ne.symm hscid, ih⟩
        | some m =>
          rw [hpinned] at ih
          obtain ⟨⟨k, hk, hpinning⟩, hle⟩ := ih
          exact ⟨⟨k, List.mem_cons_of_mem _ hk, hpinning⟩, List.forall_mem_cons.mpr
            ⟨fun hsame => absurd hsame.symm hscid, hle⟩⟩

/-- Assurance by witnesses is earned from the witnesses that the log declares, and the pin of an
identity is the highest sequence number among its accepted logs: one behind it is refused. -/
theorem assurance_earned :
    (∀ kel pins pins' witnessing knownDuplicity level,
      assessKelAssurance kel pins witnessing knownDuplicity = (.ok level, pins') →
      level = .witnessed ∨ level = .witnessedRecent →
      (∃ state, kel.verify = .ok state) ∧ ∃ evidence sn est policy head ws,
        witnessing = some evidence ∧ Earned kel evidence level sn est policy head ws) ∧
    ∀ pins accepted, Assessed pins accepted → (∀ scid, Pins accepted scid (pins.pinnedSn scid)) ∧
      ∀ kel state m witnessing knownDuplicity, kel.verify = .ok state →
        pins.pinnedSn kel.scid = some m → state.sn < m →
        assessKelAssurance kel pins witnessing knownDuplicity =
          (.error (.staleKel m state.sn), pins) := by
  constructor
  · intro kel pins pins' witnessing knownDuplicity level h hlevel
    unfold assessKelAssurance at h
    cases hcheck : pins.checkAndPin kel with
    | error e =>
      rw [hcheck] at h
      cases h
    | ok x =>
      rw [hcheck] at h
      obtain ⟨⟨state, hstate, -⟩, -⟩ := checkAndPin_ok hcheck
      refine ⟨⟨state, hstate⟩, ?_⟩
      cases knownDuplicity with
      | true =>
        cases h
        simp at hlevel
      | false =>
        cases witnessing with
        | none =>
          obtain ⟨hpinned, -⟩ := Prod.mk.inj h
          cases hpinned
          split_ifs at hlevel <;> simp at hlevel
        | some evidence =>
          obtain ⟨sn, est, policy, head, ws, hearned⟩ := exists_earned (Prod.mk.inj h).1
          exact ⟨evidence, sn, est, policy, head, ws, rfl, hearned⟩
  · intro pins accepted h
    refine ⟨h.pins, fun kel state m witnessing knownDuplicity hstate hpinned hlt => ?_⟩
    have hcheck : pins.checkAndPin kel = .error (.staleKel m state.sn) := by
      simp [FreshnessPins.checkAndPin, hstate, hpinned, failIf, hlt, bind, Except.bind]
    rw [assessKelAssurance, hcheck]

end

end Mininet.Identity

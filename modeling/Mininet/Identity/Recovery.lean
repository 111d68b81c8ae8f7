import Mininet.Identity.Duplicity

/-!
# Recovery from dead witnesses

A controller whose witnesses have become unreachable may replace them on its own word, after a
waiting period. The check takes the old policy from its caller and asks nothing of the head event, so
that what it accepts replaces the policy in force exactly when the caller's policy is that one and
the head event establishes something.
-/

namespace Mininet.Identity

open Codec Fallible

structure DeadWitnessRecoveryPolicy where
  minUnreachableWitnesses : ℕ
  minWaitingPeriodEpochs : UInt64

structure WitnessUnavailabilityAttestation where
  identity : Did
  witnessId : WitnessId
  witnessPolicyGeneration : UInt64
  firstUnreachableEpoch : UInt64
  lastAttemptEpoch : UInt64
  deriving DecidableEq

def unavailabilityDomain : Bytes := utf8 "did-mini/witness-unavailability/v1"

def WitnessUnavailabilityAttestation.encode (a : WitnessUnavailabilityAttestation) : Bytes :=
  framed UInt32 unavailabilityDomain ++ encodeDid a.identity ++ encodeDid a.witnessId ++
    toBeBytes a.witnessPolicyGeneration ++ toBeBytes a.firstUnreachableEpoch ++
    toBeBytes a.lastAttemptEpoch

section

variable [KeyPrimitives]

/-- Check one attestation, made under the keys at `attestingSn`. -/
def checkAttestation (policy : DeadWitnessRecoveryPolicy) (oldPolicy : WitnessPolicy)
    (newKel : Kel) (attestingSn : UInt64)
    (entry : WitnessUnavailabilityAttestation × List IndexedSig) :
    Except IdentityError WitnessId := do
  let (attestation, sigs) := entry
  failIf (attestation.identity ≠ newKel.did ∨
    attestation.witnessPolicyGeneration ≠ oldPolicy.generation) .witnessReceiptMismatch
  failIf (¬ oldPolicy.contains attestation.witnessId) .witnessNotInPolicy
  failIf (attestation.lastAttemptEpoch < attestation.firstUnreachableEpoch)
    (.recoveryWaitingPeriodNotMet policy.minWaitingPeriodEpochs 0)
  let span := attestation.lastAttemptEpoch - attestation.firstUnreachableEpoch
  failIf (span < policy.minWaitingPeriodEpochs)
    (.recoveryWaitingPeriodNotMet policy.minWaitingPeriodEpochs span)
  newKel.verifyMessageAt attestingSn attestation.encode sigs
  return attestation.witnessId

/-- The successor policy must be ready, when there is one. -/
def checkSuccessor (newKel : Kel) (event : Event) (newPolicy : Option WitnessPolicy)
    (newPolicyCertificate : Option WitnessedEventCertificate)
    (resolveWitnessKey : WitnessId → Option VerifyingKey) : Except IdentityError Unit :=
  match newPolicy with
  | none           => .ok ()
  | some newPolicy => do
    let certificate ← okOr newPolicyCertificate (.witnessThresholdNotMet newPolicy.threshold 0)
    failIf (certificate.identity ≠ newKel.did ∨ certificate.sequence ≠ event.sn ∨
      certificate.eventDigest ≠ event.digest) .witnessReceiptMismatch
    certificate.verify newPolicy resolveWitnessKey

def verifyDeadWitnessRecovery (policy : DeadWitnessRecoveryPolicy) (oldPolicy : WitnessPolicy)
    (newKel : Kel) (attestations : List (WitnessUnavailabilityAttestation × List IndexedSig))
    (newPolicyCertificate : Option WitnessedEventCertificate)
    (resolveWitnessKey : WitnessId → Option VerifyingKey) : Except IdentityError Unit := do
  let _ ← newKel.verify
  let event ← okOr newKel.events.getLast? .emptyKel
  let newPolicy := newKel.declaredWitnessPolicy
  failIf (¬ isPolicyChange oldPolicy newPolicy) .notAWitnessPolicyChange
  -- the subtraction saturates
  let attestingSn := if event.sn = 0 then 0 else event.sn - 1
  let distinct ← attestations.mapM (checkAttestation policy oldPolicy newKel attestingSn)
  failIf (distinct.dedup.length < policy.minUnreachableWitnesses)
    (.insufficientUnavailabilityEvidence policy.minUnreachableWitnesses distinct.dedup.length)
  checkSuccessor newKel event newPolicy newPolicyCertificate resolveWitnessKey

/-! ### What an accepted recovery says -/

/-- The log without its head event. -/
def Kel.predecessor (kel : Kel) : Kel := ⟨kel.scid, kel.events.dropLast⟩

/-- The old policy is the one in force before the head event. -/
def InForce (oldPolicy : WitnessPolicy) (newKel : Kel) : Prop :=
  ∃ p, newKel.predecessor.declaredWitnessPolicy = some p ∧ p.generation = oldPolicy.generation ∧
    p.threshold = oldPolicy.threshold ∧ ∀ w, w ∈ p.witnesses ↔ w ∈ oldPolicy.witnesses

/-- An attestation that a witness was unreachable for long enough, by the keys in control before the
head event. -/
structure Attests (policy : DeadWitnessRecoveryPolicy) (oldPolicy : WitnessPolicy) (newKel : Kel)
    (w : WitnessId) (attestation : WitnessUnavailabilityAttestation) (sigs : List IndexedSig) :
    Prop where
  witnessId : attestation.witnessId = w
  identity : attestation.identity = newKel.did
  generation : attestation.witnessPolicyGeneration = oldPolicy.generation
  span : attestation.firstUnreachableEpoch.toNat + policy.minWaitingPeriodEpochs.toNat ≤
    attestation.lastAttemptEpoch.toNat
  signed : ∃ r, Kel.replay newKel.scid newKel.predecessor.events = .ok r ∧
    ∃ signers : List VerifyingKey, signers.Nodup ∧ r.threshold.toNat ≤ signers.length ∧
      ∀ key ∈ signers, key ∈ r.keys ∧
        ∃ s ∈ sigs, key.verify attestation.encode s.signature = .ok ()

/-- A certificate of the head event by enough members of a policy. -/
structure CertifiedBy (newKel : Kel) (event : Event)
    (resolveWitnessKey : WitnessId → Option VerifyingKey) (newPolicy : WitnessPolicy)
    (certificate : WitnessedEventCertificate) : Prop where
  identity : certificate.identity = newKel.did
  sequence : certificate.sequence = event.sn
  eventDigest : certificate.eventDigest = event.digest
  generation : certificate.witnessPolicyGeneration = newPolicy.generation
  confirmed : ∃ ws : List WitnessId, ws.Nodup ∧ newPolicy.threshold.toNat ≤ ws.length ∧
    ∀ w ∈ ws, w ∈ newPolicy.witnesses ∧ certificate.Confirms resolveWitnessKey w

/-- A recovery that replaces the policy in force. -/
structure Recovered (policy : DeadWitnessRecoveryPolicy) (oldPolicy : WitnessPolicy)
    (newKel : Kel) (attestations : List (WitnessUnavailabilityAttestation × List IndexedSig))
    (newPolicyCertificate : Option WitnessedEventCertificate)
    (resolveWitnessKey : WitnessId → Option VerifyingKey) (event : Event) : Prop where
  establishes : event.kind.establishment?.isSome
  inForce : InForce oldPolicy newKel
  attested : ∃ ws : List WitnessId, ws.Nodup ∧ policy.minUnreachableWitnesses ≤ ws.length ∧
    ∀ w ∈ ws, w ∈ oldPolicy.witnesses ∧
      ∃ entry ∈ attestations, Attests policy oldPolicy newKel w entry.1 entry.2
  certified : ∀ newPolicy, newKel.declaredWitnessPolicy = some newPolicy →
    ∃ certificate, newPolicyCertificate = some certificate ∧
      CertifiedBy newKel event resolveWitnessKey newPolicy certificate

variable {kel newKel : Kel} {event : Event} {oldPolicy : WitnessPolicy} {sigs : List IndexedSig}
  {msg : Bytes}

/-- What a log declares is a policy: its members can be counted. -/
lemma length_of_declaredWitnessPolicy {policy : WitnessPolicy}
    (h : kel.declaredWitnessPolicy = some policy) : policy.witnesses.length < 2 ^ 16 := by
  obtain ⟨_, -, hpolicy⟩ := Option.bind_eq_some_iff.mp h
  exact (exists_of_policy hpolicy).2.2

lemma Kel.verifyMessageAt_ok {sn : UInt64} :
    kel.verifyMessageAt sn msg sigs = .ok () ↔ ∃ state r, kel.verify = .ok state ∧ sn ≤ state.sn ∧
      replay kel.scid (kel.events.take (sn.toNat + 1)) = .ok r ∧
      r.threshold ≤ countValidSigners msg r.keys sigs := by
  simp only [verifyMessageAt, keyStateAt, verifyThrough, checkDetached, ↓failIf_bind_ok,
    bind_ok, pure_ok, failIf_ok, UInt64.not_lt, UInt32.not_lt]
  constructor
  · rintro ⟨_, ⟨state, hstate, hsn, r, hr, rfl⟩, hthreshold⟩
    exact ⟨state, r, hstate, hsn, hr, hthreshold⟩
  · rintro ⟨state, r, hstate, hsn, hr, hthreshold⟩
    exact ⟨_, ⟨state, hstate, hsn, r, hr, rfl⟩, hthreshold⟩

/-- Detached signatures at the place before the head are under the keys before the head. -/
lemma verifyMessageAt_before_ok {state : KeyState}
    (hlength : kel.events.length ≤ 2 ^ 64) (htwo : 2 ≤ kel.events.length)
    (hstate : kel.verify = .ok state) (hlast : kel.events.getLast? = some event) :
    kel.verifyMessageAt (if event.sn = 0 then 0 else event.sn - 1) msg sigs = .ok () ↔
      ∃ r, Kel.replay kel.scid kel.predecessor.events = .ok r ∧
        r.threshold ≤ countValidSigners msg r.keys sigs := by
  obtain ⟨whole, hwhole, rfl⟩ := Kel.verify_ok.mp hstate
  rw [List.getLast?_eq_getElem?] at hlast
  obtain ⟨-, hsn⟩ := Kel.place_of_replay hwhole _ _ hlast
  have hnat : event.sn.toNat = kel.events.length - 1 := by
    rw [hsn, UInt64.toNat_ofNat_of_lt' (by
      change _ < 2 ^ 64
      omega)]
  have hone : (1 : UInt64).toNat = 1 := rfl
  have hzero : event.sn ≠ 0 := by
    intro hzero
    rw [hzero] at hnat
    have hnat : 0 = kel.events.length - 1 := hnat
    omega
  have hle : (1 : UInt64) ≤ event.sn := UInt64.le_iff_toNat_le.mpr (by omega)
  have hbefore : (event.sn - 1).toNat + 1 = kel.events.length - 1 := by
    rw [UInt64.toNat_sub_of_le _ _ hle, hone, hnat]
    omega
  have hprefix : kel.events.take ((event.sn - 1).toNat + 1) = kel.predecessor.events := by
    rw [hbefore, ← List.dropLast_eq_take]
    rfl
  rw [if_neg hzero, Kel.verifyMessageAt_ok, hprefix]
  constructor
  · rintro ⟨-, r, -, -, hr, hthreshold⟩
    exact ⟨r, hr, hthreshold⟩
  · rintro ⟨r, hr, hthreshold⟩
    refine ⟨_, r, hstate, ?_, hr, hthreshold⟩
    change event.sn - 1 ≤ UInt64.ofNat (kel.events.length - 1)
    rw [← hsn, UInt64.le_iff_toNat_le]
    omega

/-- Before the head event something was declared. -/
lemma InForce.two_le (h : InForce oldPolicy newKel) : 2 ≤ newKel.events.length := by
  obtain ⟨p, hp, -⟩ := h
  have hne : newKel.events.dropLast ≠ [] := by
    intro hnil
    rw [Kel.predecessor, hnil] at hp
    cases hp
  have hpos := List.length_pos_iff.mpr hne
  rw [List.length_dropLast] at hpos
  omega

lemma attests_of_checkAttestation {policy : DeadWitnessRecoveryPolicy}
    {s : KeyState} {w : WitnessId} {entry : WitnessUnavailabilityAttestation × List IndexedSig}
    (hlength : newKel.events.length ≤ 2 ^ 64) (hs : newKel.verify = .ok s)
    (hlast : newKel.events.getLast? = some event) (htwo : 2 ≤ newKel.events.length)
    (h : checkAttestation policy oldPolicy newKel (if event.sn = 0 then 0 else event.sn - 1) entry =
      .ok w) :
    w ∈ oldPolicy.witnesses ∧ Attests policy oldPolicy newKel w entry.1 entry.2 := by
  obtain ⟨attestation, sigs⟩ := entry
  rw [checkAttestation, failIf_bind_ok] at h
  simp only [↓failIf_bind_ok, bind_ok] at h
  obtain ⟨hmatch, hmem, horder, hspan, ⟨⟩, hsigned, h⟩ := h
  cases h
  obtain ⟨hidentity, hgeneration⟩ := not_or.mp hmatch
  obtain ⟨r, hr, hthreshold⟩ := (verifyMessageAt_before_ok hlength htwo hs hlast).mp hsigned
  obtain ⟨signers, hnodup, hcount, hsigners⟩ := exists_signers attestation.encode r.keys sigs
  refine ⟨by simpa [WitnessPolicy.contains] using hmem, rfl, not_not.mp hidentity,
    not_not.mp hgeneration, ?_, r, hr, signers, hnodup,
    (UInt32.le_iff_toNat_le.mp hthreshold).trans hcount, hsigners⟩
  change attestation.firstUnreachableEpoch.toNat + _ ≤ attestation.lastAttemptEpoch.toNat
  rw [UInt64.not_lt] at horder hspan
  rw [UInt64.le_iff_toNat_le, UInt64.toNat_sub_of_le _ _ horder] at hspan
  rw [UInt64.le_iff_toNat_le] at horder
  omega

lemma certifiedBy_of_checkSuccessor {newPolicy : WitnessPolicy}
    {newPolicyCertificate : Option WitnessedEventCertificate}
    {resolveWitnessKey : WitnessId → Option VerifyingKey}
    (hnew : newKel.declaredWitnessPolicy = some newPolicy)
    (h : checkSuccessor newKel event (some newPolicy) newPolicyCertificate resolveWitnessKey = .ok ()) :
    ∃ certificate, newPolicyCertificate = some certificate ∧
      CertifiedBy newKel event resolveWitnessKey newPolicy certificate := by
  obtain ⟨certificate, hcertificate, h⟩ := bind_ok.mp h
  obtain ⟨hmatch, hverify⟩ := failIf_bind_ok.mp h
  simp only [not_or, not_not] at hmatch
  obtain ⟨hidentity, hsequence, hdigest⟩ := hmatch
  obtain ⟨hgeneration, hconfirmed⟩ := WitnessedEventCertificate.exists_of_verify hverify
    (length_of_declaredWitnessPolicy hnew)
  exact ⟨certificate, okOr_ok.mp hcertificate, hidentity, hsequence, hdigest, hgeneration.symm,
    hconfirmed⟩

/-- What an accepted recovery says: it replaces the policy in force exactly when the old policy is
that one and the head event establishes something. -/
theorem recovered_iff_of_verifyDeadWitnessRecovery {policy : DeadWitnessRecoveryPolicy}
    {oldPolicy : WitnessPolicy} {newKel : Kel}
    {attestations : List (WitnessUnavailabilityAttestation × List IndexedSig)}
    {newPolicyCertificate : Option WitnessedEventCertificate}
    {resolveWitnessKey : WitnessId → Option VerifyingKey}
    (hlength : newKel.events.length ≤ 2 ^ 64)
    (h : verifyDeadWitnessRecovery policy oldPolicy newKel attestations newPolicyCertificate
      resolveWitnessKey = .ok ()) :
    ∃ event, newKel.events.getLast? = some event ∧
      (Recovered policy oldPolicy newKel attestations newPolicyCertificate resolveWitnessKey event ↔
        event.kind.establishment?.isSome ∧ InForce oldPolicy newKel) := by
  simp only [verifyDeadWitnessRecovery, ↓failIf_bind_ok, bind_ok] at h
  obtain ⟨s, hs, event, hlast, -, distinct, hdistinct, henough, hsuccessor⟩ := h
  have hlast := okOr_ok.mp hlast
  refine ⟨event, hlast, fun hrec => ⟨hrec.establishes, hrec.inForce⟩, ?_⟩
  rintro ⟨hestablishes, hinForce⟩
  refine ⟨hestablishes, hinForce, ⟨distinct.dedup, distinct.nodup_dedup, not_lt.mp henough, ?_⟩,
    fun newPolicy hnew => certifiedBy_of_checkSuccessor hnew (hnew ▸ hsuccessor)⟩
  intro w hw
  obtain ⟨entry, hentry, hcheck⟩ := exists_of_mapM_ok hdistinct (List.mem_dedup.mp hw)
  obtain ⟨hmem, hattests⟩ := attests_of_checkAttestation hlength hs hlast hinForce.two_le hcheck
  exact ⟨hmem, entry, hentry, hattests⟩

/-! ### Recoveries on the word of one key -/

/-- A policy that asks for one witness to be unreachable for ten epochs. -/
def sampleRecoveryPolicy : DeadWitnessRecoveryPolicy := ⟨1, 10⟩

def sampleAttestation (kel : Kel) (oldPolicy : WitnessPolicy) (w : WitnessId) :
    WitnessUnavailabilityAttestation :=
  ⟨kel.did, w, oldPolicy.generation, 0, 10⟩

end

open Controller

/-- The word of one key for a witness being unreachable. -/
def sampleAttestations (kel : Kel) (oldPolicy : WitnessPolicy) (i : ℕ) :
    List (WitnessUnavailabilityAttestation × List IndexedSig) :=
  let attestation := sampleAttestation kel oldPolicy sampleWitness
  ((@SigningKey.sign .sample (sampleKey i) attestation.encode).map fun signature =>
    (attestation, [⟨0, signature⟩])).toList

theorem sample_recovered :
    ∃ kel oldPolicy attestations event, @verifyDeadWitnessRecovery .sample sampleRecoveryPolicy
        oldPolicy kel attestations none (fun _ => none) = .ok () ∧
      kel.events.getLast? = some event ∧
      @Recovered .sample sampleRecoveryPolicy oldPolicy kel attestations none (fun _ => none)
        event := by
  let := KeyPrimitives.sample
  obtain ⟨-, -, c₂, -, -, -, htest⟩ := exists_sample_appointed (rotateWithNext [sampleKey 3])
    (fun _ c₂ => decide (∃ policy ∈ c₂.kel.predecessor.declaredWitnessPolicy,
      verifyDeadWitnessRecovery sampleRecoveryPolicy policy c₂.kel
        (sampleAttestations c₂.kel policy 1) none (fun _ => none) = .ok () ∧
      c₂.kel.events.length ≤ 2 ^ 64 ∧
      ∀ event ∈ c₂.kel.events.getLast?, event.kind.establishment?.isSome)) (by decide +kernel)
  obtain ⟨policy, hpolicy, haccepted, hlength, hestablishes⟩ := of_decide_eq_true htest
  obtain ⟨event, hlast, hiff⟩ := recovered_iff_of_verifyDeadWitnessRecovery hlength haccepted
  exact ⟨c₂.kel, policy, _, event, haccepted, hlast, hiff.mpr ⟨hestablishes event hlast, policy,
    hpolicy, rfl, rfl, fun _ => Iff.rfl⟩⟩

/-- Recovery is granted to a log whose head establishes nothing, from a policy that never was. -/
theorem sample_not_recovered :
    ∃ kel oldPolicy attestations event, @verifyDeadWitnessRecovery .sample sampleRecoveryPolicy
        oldPolicy kel attestations none (fun _ => none) = .ok () ∧
      kel.events.length ≤ 2 ^ 64 ∧ kel.events.getLast? = some event ∧
      event.kind.establishment? = none ∧ ¬ @InForce .sample oldPolicy kel := by
  let := KeyPrimitives.sample
  obtain ⟨-, -, c₂, -, -, -, htest⟩ := exists_sample_appointed
    (do rotateWithNext [sampleKey 3]; interact [])
    (fun _ c₂ => decide (c₂.kel.predecessor.declaredWitnessPolicy = none ∧
      verifyDeadWitnessRecovery sampleRecoveryPolicy ⟨7, [sampleWitness], 1⟩ c₂.kel
        (sampleAttestations c₂.kel ⟨7, [sampleWitness], 1⟩ 2) none (fun _ => none) = .ok () ∧
      c₂.kel.events.length ≤ 2 ^ 64 ∧
      ∃ event ∈ c₂.kel.events.getLast?, event.kind.establishment? = none)) (by decide +kernel)
  obtain ⟨hnone, haccepted, hlength, event, hlast, hkind⟩ := of_decide_eq_true htest
  refine ⟨c₂.kel, _, _, event, haccepted, hlength, hlast, hkind, ?_⟩
  rintro ⟨p, hp, -⟩
  cases hnone.symm.trans hp

end Mininet.Identity

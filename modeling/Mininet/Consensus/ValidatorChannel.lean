import Mininet.Chain.Finality

/-!
# The validator handshake

Over an established channel a validator's device signs the channel's binding, and the other side
checks the signature against the logs and the validator set it knows. The signed bytes name neither
the root nor the end that signs. Whoever holds the other end can therefore hand a validator its own
attestation back, and a validator that has already sent one takes it for its peer's.
-/

namespace Mininet.Consensus

open Codec Fallible

inductive HandshakeError where
  | bearer
  | malformed
  | channelMismatch
  | identityMismatch
  | missingVoteCapability
  | notAMember
  | identity (e : IdentityError)

/-- A device's signed proof that it is on the other end of one established channel. -/
structure ValidatorHandshakeAttestation where
  channelBinding : Hash
  validatorRoot : Did
  validatorDevice : Did
  signature : List IndexedSig

namespace ValidatorHandshakeAttestation

def signDomain : Bytes := utf8 "mini-consensus/validator-handshake-sign/v1"

def wireDomain : Bytes := utf8 "mini-consensus/validator-handshake/v1"

/-- What the device signs. -/
def transcript (channelBinding : Hash) : Bytes := signDomain ++ channelBinding.bytes

def toWireBytes (a : ValidatorHandshakeAttestation) : Bytes :=
  wireDomain ++ (a.channelBinding.bytes ++ (a.validatorRoot.wireBytes ++
    (a.validatorDevice.wireBytes ++ IndexedSig.listBytes a.signature)))

variable [Primitives]

def read : Reader HandshakeError ValidatorHandshakeAttestation := do
  expect .malformed .malformed wireDomain
  let channelBinding ← Hash.read .malformed
  let validatorRoot ← Did.read .malformed .malformed
  let validatorDevice ← Did.read .malformed .malformed
  let signature ← IndexedSig.readList .malformed .malformed
  return { channelBinding, validatorRoot, validatorDevice, signature }

def fromWireBytes (bytes : Bytes) : Except HandshakeError ValidatorHandshakeAttestation := do
  let (attestation, rest) ← read.run bytes
  failIf (rest ≠ []) .malformed
  return attestation

lemma fromWireBytes_toWireBytes {a : ValidatorHandshakeAttestation}
    (hroot : a.validatorRoot.Portable) (hdevice : a.validatorDevice.Portable)
    (hsigs : a.signature.length ≤ maxSignatures) :
    fromWireBytes a.toWireBytes = .ok a := by
  have hreads : Reads read a.toWireBytes a := by
    refine (reads_expect _ _ _).bind ?_
    refine (Hash.reads_read _ a.channelBinding).bind ?_
    refine (Did.reads_read _ _ hroot).bind ?_
    refine (Did.reads_read _ _ hdevice).bind ?_
    exact (IndexedSig.reads_readList _ _ hsigs).bind_pure
  refine bind_ok.mpr ⟨(a, []), hreads.run, ?_⟩
  exact failIf_bind_ok.mpr ⟨by simp, rfl⟩

end ValidatorHandshakeAttestation

open ValidatorHandshakeAttestation

/-- A validator's device, by its identity and what it signs with. -/
structure Device where
  did : Did
  signMessage : Bytes → List IndexedSig

def signValidatorHandshake (channelBinding : Hash) (validatorRoot : Did) (device : Device) :
    ValidatorHandshakeAttestation where
  channelBinding := channelBinding
  validatorRoot := validatorRoot
  validatorDevice := device.did
  signature := device.signMessage (transcript channelBinding)

section Handshake

variable {Kel : Type} [KelOps Kel]

def verifyValidatorHandshake (attestation : ValidatorHandshakeAttestation)
    (expectedChannelBinding : Hash) (validators : ValidatorSet) (rootKel deviceKel : Kel) :
    Except HandshakeError Did := do
  failIf (attestation.channelBinding ≠ expectedChannelBinding) .channelMismatch
  failIf ((KelOps.did deviceKel).asStr ≠ attestation.validatorDevice.asStr) .identityMismatch
  failIf ((KelOps.did rootKel).asStr ≠ attestation.validatorRoot.asStr) .identityMismatch
  let caps ← (KelOps.verifyDelegation rootKel deviceKel).mapError .identity
  failIf (!caps.contains Capabilities.vote) .missingVoteCapability
  failIf (!validators.contains attestation.validatorRoot) .notAMember
  (KelOps.verifyMessage deviceKel (transcript attestation.channelBinding)
    attestation.signature).mapError .identity
  return attestation.validatorRoot

variable [Primitives]

/-- The plaintext that is sealed and sent. -/
def sendValidatorHandshake (channelBinding : Hash) (validatorRoot : Did) (device : Device) : Bytes :=
  (signValidatorHandshake channelBinding validatorRoot device).toWireBytes

/-- Verify an attestation from what the bearer and the channel made of the next frame. -/
def recvValidatorHandshake (opened : Except HandshakeError Bytes) (channelBinding : Hash)
    (validators : ValidatorSet) (oracle : ValidatorOracle Kel) : Except HandshakeError Did := do
  let plaintext ← opened
  let attestation ← fromWireBytes plaintext
  let rootKel ← okOr (oracle attestation.validatorRoot) .identityMismatch
  let deviceKel ← okOr (oracle attestation.validatorDevice) .identityMismatch
  verifyValidatorHandshake attestation channelBinding validators rootKel deviceKel

/-! ### Who is on the other end -/

/-- A device that the oracle knows as delegated by a root, with the right to vote. -/
def VotesFor (oracle : ValidatorOracle Kel) (root device : Did) : Prop :=
  ∃ rootKel deviceKel caps, oracle root = some rootKel ∧ oracle device = some deviceKel ∧
    (KelOps.did rootKel).asStr = root.asStr ∧ (KelOps.did deviceKel).asStr = device.asStr ∧
    KelOps.verifyDelegation rootKel deviceKel = .ok caps ∧ caps.contains Capabilities.vote

/-- Only the `signers` have signed for this channel. -/
def Unforgeable (oracle : ValidatorOracle Kel) (channelBinding : Hash) (signers : Set Did) : Prop :=
  ∀ device kel sigs, oracle device = some kel →
    KelOps.verifyMessage kel (transcript channelBinding) sigs = .ok () → device ∈ signers

/-- What a validator does with a channel; its peer chooses every plaintext it receives. -/
inductive Operation where
  | send
  | recv (opened : Except HandshakeError Bytes)

/-- Who has signed for a channel: devices at the peer's end, and the validator's own device once it
has sent. -/
def signers (peers : Set Did) (device : Device) (before : List Operation) : Set Did :=
  { d | d ∈ peers ∨ .send ∈ before ∧ d = device.did }

variable {oracle : ValidatorOracle Kel} {validators : ValidatorSet} {channelBinding : Hash}
  {root : Did}

/-- An accepted attestation is signed by a device that votes for an admitted root. -/
lemma exists_of_recv_ok {opened : Except HandshakeError Bytes}
    (h : recvValidatorHandshake opened channelBinding validators oracle = .ok root) :
    ∃ device kel sigs, VotesFor oracle root device ∧ validators.contains root ∧
      oracle device = some kel ∧
      KelOps.verifyMessage kel (transcript channelBinding) sigs = .ok () := by
  simp only [recvValidatorHandshake, bind_ok] at h
  obtain ⟨plaintext, -, attestation, -, rootKel, hroot, deviceKel, hdevice, h⟩ := h
  rw [okOr_ok] at hroot hdevice
  obtain ⟨hbinding, h⟩ := failIf_bind_ok.mp h
  obtain ⟨hdid, h⟩ := failIf_bind_ok.mp h
  obtain ⟨hrdid, h⟩ := failIf_bind_ok.mp h
  obtain ⟨caps, hcaps, h⟩ := bind_ok.mp h
  obtain ⟨hvote, h⟩ := failIf_bind_ok.mp h
  obtain ⟨hmember, h⟩ := failIf_bind_ok.mp h
  obtain ⟨_, hverify, h⟩ := bind_ok.mp h
  cases h
  rw [mapError_ok] at hcaps hverify
  simp only [not_not] at hbinding hdid hrdid
  exact ⟨attestation.validatorDevice, deviceKel, attestation.signature,
    ⟨rootKel, deviceKel, caps, hroot, hdevice, hrdid, hdid, hcaps, by simpa using hvote⟩,
    by simpa using hmember, hdevice, hbinding ▸ hverify⟩

/-- A validator's own signature is accepted back, for every admitted root its device votes for. -/
lemma recv_reflected {device : Device} (hroot : root.Portable) (hdevice : device.did.Portable)
    (hsigs : (device.signMessage (transcript channelBinding)).length ≤ maxSignatures)
    (hsigned : ∀ kel, oracle device.did = some kel → KelOps.verifyMessage kel
      (transcript channelBinding) (device.signMessage (transcript channelBinding)) = .ok ())
    (hvotes : VotesFor oracle root device.did) (hmember : validators.contains root) :
    recvValidatorHandshake (.ok (sendValidatorHandshake channelBinding root device)) channelBinding
      validators oracle = .ok root := by
  obtain ⟨rootKel, deviceKel, caps, hrkel, hdkel, hrdid, hdid, hcaps, hvote⟩ := hvotes
  refine bind_ok.mpr ⟨_, rfl, ?_⟩
  refine bind_ok.mpr ⟨_, fromWireBytes_toWireBytes hroot hdevice hsigs, ?_⟩
  refine bind_ok.mpr ⟨rootKel, okOr_ok.mpr hrkel, ?_⟩
  refine bind_ok.mpr ⟨deviceKel, okOr_ok.mpr hdkel, ?_⟩
  refine failIf_bind_ok.mpr ⟨by simp [signValidatorHandshake], ?_⟩
  refine failIf_bind_ok.mpr ⟨by simp [signValidatorHandshake, hdid], ?_⟩
  refine failIf_bind_ok.mpr ⟨by simp [signValidatorHandshake, hrdid], ?_⟩
  refine bind_ok.mpr ⟨caps, mapError_ok.mpr hcaps, ?_⟩
  refine failIf_bind_ok.mpr ⟨by simp [hvote], ?_⟩
  refine failIf_bind_ok.mpr ⟨by simp [signValidatorHandshake, hmember], ?_⟩
  exact bind_ok.mpr ⟨(), mapError_ok.mpr (hsigned deviceKel hdkel), rfl⟩

end Handshake

/-! ### A sample validator -/

/-- The logs of one root and of the one device it delegated, which has signed. -/
inductive SampleLog where
  | root
  | device

def SampleLog.did : SampleLog → Did
  | .root   => ⟨"r"⟩
  | .device => ⟨"d"⟩

instance : KelOps SampleLog where
  did := SampleLog.did
  verifyDelegation
    | .root, .device => .ok Capabilities.vote
    | _, _           => .error .notDelegated
  verifyMessage
    | .device, _, _ => .ok ()
    | .root, _, _   => .error .notDelegated

def sampleLogs : ValidatorOracle SampleLog := fun d =>
  if d = ⟨"r"⟩ then some .root else if d = ⟨"d"⟩ then some .device else none

def sampleSet : ValidatorSet := ⟨[⟨"r"⟩], by simp, by simp, by decide⟩

def sampleDevice : Device := ⟨⟨"d"⟩, fun _ => []⟩

lemma sample_unforgeable {signers : Set Did} (h : ⟨"d"⟩ ∈ signers) (channelBinding : Hash) :
    Unforgeable sampleLogs channelBinding signers := by
  intro device kel sigs hkel hverify
  unfold sampleLogs at hkel
  split at hkel
  · cases hkel
    cases hverify
  · split at hkel
    next hd => exact hd ▸ h
    · cases hkel

lemma recv_sampleDevice : letI := Primitives.sample
    recvValidatorHandshake (.ok (sendValidatorHandshake Hash.zero ⟨"r"⟩ sampleDevice)) Hash.zero
      sampleSet sampleLogs = .ok ⟨"r"⟩ := by
  let := Primitives.sample
  exact recv_reflected ⟨rfl, by decide +kernel⟩ ⟨rfl, by decide +kernel⟩ (by decide)
    (by rintro kel h; cases h; rfl)
    ⟨.root, .device, Capabilities.vote, rfl, rfl, rfl, rfl, rfl, by decide⟩ (by decide)

end Mininet.Consensus

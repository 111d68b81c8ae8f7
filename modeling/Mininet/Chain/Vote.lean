import Mininet.Identity

/-!
# Block headers and votes

A header's hash is what votes commit to. A vote is a device's signature over a phase, a height, a
round and a block hash, in the name of the identity root that delegated the device.
-/

namespace Mininet

open Codec Fallible

/-! ### Headers -/

structure BlockHeader where
  height : UInt64
  prevHash : Hash
  stateRoot : Hash
  bodyRoot : Hash
  timestampMs : UInt64
  proposer : Did
  deriving DecidableEq

namespace BlockHeader

def version : UInt8 := 2

def hashDomain : Bytes := utf8 "mini-chain/block-header/v2"

def canonicalBytes (h : BlockHeader) : Bytes :=
  hashDomain ++ [version] ++ toBeBytes h.height ++ h.prevHash.bytes ++ h.stateRoot.bytes ++
    h.bodyRoot.bytes ++ toBeBytes h.timestampMs ++ framed UInt32 (utf8 h.proposer.asStr)

/-- The block hash. -/
def hash [Primitives] (h : BlockHeader) : Hash := blake3 h.canonicalBytes

end BlockHeader

/-! ### Votes -/

inductive ChainError where
  | emptyValidatorSet
  | notAnEquivocation
  | unknownValidator
  | duplicateValidator
  | deviceMismatch
  | missingVoteCapability
  | limitExceeded
  | quorumNotMet (needed got : ℕ)
  | malformed
  | identity (e : IdentityError)
  deriving DecidableEq, Repr

/-- The two voting phases. -/
inductive VoteKind where
  | prevote
  | precommit
  deriving DecidableEq, Repr

def VoteKind.toByte : VoteKind → UInt8
  | .prevote   => 0
  | .precommit => 1

structure Vote where
  kind : VoteKind
  height : UInt64
  round : UInt32
  blockHash : Hash
  validatorRoot : Did
  validatorDevice : Did
  signature : List IndexedSig
  deriving DecidableEq

namespace Vote

def signDomain : Bytes := utf8 "mini-chain/vote-sign/v1"

def wireDomain : Bytes := utf8 "mini-chain/vote/v1"

/-- What the device signs. -/
def transcript (kind : VoteKind) (height : UInt64) (round : UInt32) (blockHash : Hash) : Bytes :=
  signDomain ++ [kind.toByte] ++ toBeBytes height ++ toBeBytes round ++ blockHash.bytes

end Vote

section Verify

variable {Kel : Type} [KelOps Kel]

/-- Verify one vote against the logs of its claimed root and device. -/
def verifyVote (vote : Vote) (rootKel deviceKel : Kel) : Except ChainError Unit := do
  if (KelOps.did deviceKel).asStr ≠ vote.validatorDevice.asStr then throw .deviceMismatch
  if (KelOps.did rootKel).asStr ≠ vote.validatorRoot.asStr then throw .deviceMismatch
  let caps ← (KelOps.verifyDelegation rootKel deviceKel).mapError .identity
  if !caps.contains Capabilities.vote then throw .missingVoteCapability
  (KelOps.verifyMessage deviceKel
    (Vote.transcript vote.kind vote.height vote.round vote.blockHash) vote.signature).mapError
      .identity

/-- Whether the oracle knows both logs of a vote and the vote verifies against them. -/
def verifies (oracle : ValidatorOracle Kel) (vote : Vote) : Bool :=
  match oracle vote.validatorRoot, oracle vote.validatorDevice with
  | some rootKel, some deviceKel => (verifyVote vote rootKel deviceKel).isOk
  | _, _                         => false

end Verify

/-! ### Wire form -/

def VoteKind.fromByte (b : UInt8) : Except ChainError VoteKind :=
  if b = 0 then .ok .prevote else if b = 1 then .ok .precommit else .error .malformed

@[simp] lemma VoteKind.fromByte_toByte (k : VoteKind) : fromByte k.toByte = .ok k := by
  cases k <;> rfl

namespace Vote

def toWireBytes (v : Vote) : Bytes :=
  wireDomain ++ ([v.kind.toByte] ++ (toBeBytes v.height ++ (toBeBytes v.round ++
    (v.blockHash.bytes ++ (v.validatorRoot.wireBytes ++ (v.validatorDevice.wireBytes ++
    IndexedSig.listBytes v.signature))))))

variable [Primitives]

def read : Reader ChainError Vote := do
  expect .malformed .malformed wireDomain
  let tag ← word .malformed UInt8
  let kind ← lift (VoteKind.fromByte tag)
  let height ← word .malformed UInt64
  let round ← word .malformed UInt32
  let blockHash ← Hash.read .malformed
  let validatorRoot ← Did.read .malformed .malformed
  let validatorDevice ← Did.read .malformed .malformed
  let signature ← IndexedSig.readList .malformed .malformed
  return { kind, height, round, blockHash, validatorRoot, validatorDevice, signature }

def fromWireBytes (bytes : Bytes) : Except ChainError Vote := do
  let (vote, rest) ← read.run bytes
  failIf (rest ≠ []) .malformed
  return vote

/-- A vote that the wire can carry. -/
structure Portable (v : Vote) : Prop where
  validatorRoot : v.validatorRoot.Portable
  validatorDevice : v.validatorDevice.Portable
  signature : v.signature.length ≤ maxSignatures

variable {v : Vote}

lemma reads_read (h : v.Portable) : Reads read v.toWireBytes v := by
  refine (reads_expect _ _ _).bind ?_
  refine (reads_byte _ v.kind.toByte).bind ?_
  refine Reads.lift_bind (VoteKind.fromByte_toByte _) ?_
  refine (reads_word _ v.height).bind ?_
  refine (reads_word _ v.round).bind ?_
  refine (Hash.reads_read _ v.blockHash).bind ?_
  refine (Did.reads_read _ _ h.validatorRoot).bind ?_
  refine (Did.reads_read _ _ h.validatorDevice).bind ?_
  exact (IndexedSig.reads_readList _ _ h.signature).bind_pure

/-- A portable vote is small. -/
lemma length_toWireBytes_le (h : v.Portable) : v.toWireBytes.length ≤ 2 ^ 18 := by
  have hroot := h.validatorRoot.length_le
  have hdevice := h.validatorDevice.length_le
  have hsigs := IndexedSig.length_listBytes_le v.signature
  have hcount := h.signature
  have hdomain : wireDomain.length = 18 := by decide
  simp only [toWireBytes, List.length_append, hdomain, List.length_singleton, length_toBeBytes,
    Hash.length_bytes, Did.wireBytes, length_framed]
  unfold Did.maxDidBytes at hroot hdevice
  unfold maxSignatures at hcount
  omega

/-- Decoding inverts encoding. -/
theorem fromWireBytes_toWireBytes (h : v.Portable) : fromWireBytes v.toWireBytes = .ok v := by
  refine bind_ok.mpr ⟨(v, []), (reads_read h).run, ?_⟩
  exact failIf_bind_ok.mpr ⟨by simp, rfl⟩

end Vote

end Mininet

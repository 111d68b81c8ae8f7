import Mininet.Chain.Finality
import Mininet.Execution.Body

/-!
# Consensus messages on the wire

Proposals, votes and finalized blocks share one encoding of headers and bodies. The body encoding
carries the claims and the monetary epochs; the nullifier records are not written, and a decoded
body never has any.
-/

namespace Mininet

open Codec Fallible

inductive ConsensusError where
  | malformed
  | tooLarge
  | chain (e : ChainError)
  | execution (e : ExecutionError)
  | stalled
  | catchupOutOfOrder (expected got : UInt64)
  | storage
  | stateSyncWrongNetwork
  | stateSyncTooManyBlocks (maximum got : ℕ)
  | stateSyncUnavailable (earliestHeight tipHeight : UInt64)
  | snapshotProofMismatch
  | snapshotNotNewer (current got : UInt64)
  deriving DecidableEq, Repr

/-- Hard cap on one encoded message. -/
def maxMessageBytes : ℕ := 16 * 1024 * 1024

/-- Hard cap on a claim's opaque fields. -/
def maxOpaqueFieldBytes : ℕ := 4096

/-! ### Claims and bodies -/

namespace PaymentClaim

def encode (c : PaymentClaim) : Bytes :=
  c.networkId.bytes ++ (framed UInt32 c.payer ++ (framed UInt32 c.payee ++
    (toBeBytes c.amountMicro ++ (toBeBytes c.sequence ++ (toBeBytes c.validUntilMs ++
    (framed UInt32 c.lastKnownChain ++ c.signature.wireBytes))))))

def decode : Reader ConsensusError PaymentClaim := do
  let networkId ← Hash.read .malformed
  let payer ← readFramed .malformed .tooLarge UInt32 maxOpaqueFieldBytes
  let payee ← readFramed .malformed .tooLarge UInt32 maxOpaqueFieldBytes
  let amountMicro ← word .malformed UInt64
  let sequence ← word .malformed UInt64
  let validUntilMs ← word .malformed UInt64
  let lastKnownChain ← readFramed .malformed .tooLarge UInt32 maxOpaqueFieldBytes
  let signature ← Signature.read .malformed
  return {
    networkId, payer, payee, amountMicro, sequence, validUntilMs, lastKnownChain, signature }

/-- A claim within the wire's caps. -/
structure Portable (c : PaymentClaim) : Prop where
  payer : c.payer.length ≤ maxOpaqueFieldBytes
  payee : c.payee.length ≤ maxOpaqueFieldBytes
  lastKnownChain : c.lastKnownChain.length ≤ maxOpaqueFieldBytes

lemma reads_decode {c : PaymentClaim} (h : c.Portable) : Reads decode c.encode c := by
  have hfit : ∀ {n}, n ≤ maxOpaqueFieldBytes → n < 256 ^ 4 := fun hn => hn.trans_lt (by decide)
  refine (Hash.reads_read _ c.networkId).bind ?_
  refine (reads_framed _ _ h.payer (hfit h.payer)).bind ?_
  refine (reads_framed _ _ h.payee (hfit h.payee)).bind ?_
  refine (reads_word _ c.amountMicro).bind ?_
  refine (reads_word _ c.sequence).bind ?_
  refine (reads_word _ c.validUntilMs).bind ?_
  refine (reads_framed _ _ h.lastKnownChain (hfit h.lastKnownChain)).bind ?_
  exact (Signature.reads_read _ c.signature).bind_pure

end PaymentClaim

namespace ScalableEpochPlan

def decode : Reader ConsensusError ScalableEpochPlan := do
  let bytes ← readFramed .malformed .tooLarge UInt32 maxScalableEpochPlanBytes
  lift ((fromWireBytes bytes).mapError fun _ => .malformed)

lemma reads_decode {e : ScalableEpochPlan} {bs : Bytes} (h : e.toWireBytes = .ok bs) :
    Reads decode (framed UInt32 e.canonicalBytes) e := by
  obtain ⟨-, -, hsize, rfl⟩ := toWireBytes_ok.mp h
  refine (reads_framed _ _ hsize (hsize.trans_lt (by decide))).bind_lift ?_
  exact mapError_ok.mpr (fromWireBytes_toWireBytes h)

end ScalableEpochPlan

namespace SettlementBlockBody

def encodeBody (b : SettlementBlockBody) : Bytes :=
  countBytes UInt32 b.claims.length ++ (b.claims.flatMap PaymentClaim.encode ++
    (countBytes UInt32 b.monetaryEpochs.length ++
    b.monetaryEpochs.flatMap fun e => framed UInt32 e.canonicalBytes))

def decodeBody : Reader ConsensusError SettlementBlockBody := do
  let count ← readCount .malformed .tooLarge UInt32 maxClaimsPerBlock
  let claims ← readMany PaymentClaim.decode count
  let epochCount ← readCount .malformed .tooLarge UInt32 maxMonetaryEpochsPerBlock
  let monetaryEpochs ← readMany ScalableEpochPlan.decode epochCount
  return { claims, monetaryEpochs }

/-- A body within the wire's caps. -/
structure Portable (b : SettlementBlockBody) : Prop where
  claims : b.claims.length ≤ maxClaimsPerBlock
  claim : ∀ c ∈ b.claims, c.Portable
  nullifiers : b.nullifiers.length ≤ maxNullifiersPerBlock
  monetaryEpochs : b.monetaryEpochs.length ≤ maxMonetaryEpochsPerBlock
  epoch : ∀ e ∈ b.monetaryEpochs, ∃ bs, e.toWireBytes = .ok bs

variable {b : SettlementBlockBody}

/-- What a reader of the encoding gets: the body without its nullifier records. -/
lemma reads_decodeBody (h : b.Portable) :
    Reads decodeBody b.encodeBody { b with nullifiers := [] } := by
  refine (reads_readCount _ _ h.claims (h.claims.trans_lt (by decide))).bind ?_
  refine (reads_readMany fun c hc => PaymentClaim.reads_decode (h.claim c hc)).bind ?_
  refine (reads_readCount _ _ h.monetaryEpochs (h.monetaryEpochs.trans_lt (by decide))).bind ?_
  refine (reads_readMany fun e he => ?_).bind_pure
  obtain ⟨bs, hbs⟩ := h.epoch e he
  exact ScalableEpochPlan.reads_decode hbs

lemma eq_of_nullifiers_eq_nil : { b with nullifiers := [] } = b ↔ b.nullifiers = [] := by
  cases b
  simp [eq_comm]

end SettlementBlockBody

section

variable [Primitives]

/-! ### Headers -/

namespace BlockHeader

def encodeHeader (h : BlockHeader) : Bytes :=
  toBeBytes h.height ++ (h.prevHash.bytes ++ (h.stateRoot.bytes ++ (h.bodyRoot.bytes ++
    (toBeBytes h.timestampMs ++ h.proposer.wireBytes))))

def decodeHeader : Reader ConsensusError BlockHeader := do
  let height ← word .malformed UInt64
  let prevHash ← Hash.read .malformed
  let stateRoot ← Hash.read .malformed
  let bodyRoot ← Hash.read .malformed
  let timestampMs ← word .malformed UInt64
  let proposer ← Did.read .malformed .tooLarge
  return { height, prevHash, stateRoot, bodyRoot, timestampMs, proposer }

lemma reads_decodeHeader {h : BlockHeader} (hp : h.proposer.Portable) :
    Reads decodeHeader h.encodeHeader h := by
  refine (reads_word _ h.height).bind ?_
  refine (Hash.reads_read _ h.prevHash).bind ?_
  refine (Hash.reads_read _ h.stateRoot).bind ?_
  refine (Hash.reads_read _ h.bodyRoot).bind ?_
  refine (reads_word _ h.timestampMs).bind ?_
  exact (Did.reads_read _ _ hp).bind_pure

end BlockHeader

/-! ### Proposals -/

/-- A block proposed in a round, signed by a device of the round's proposer. -/
structure Proposal where
  round : UInt32
  validRound : Int64
  proposerRoot : Did
  proposerDevice : Did
  header : BlockHeader
  body : SettlementBlockBody
  signature : List IndexedSig
  deriving DecidableEq

namespace Proposal

def signDomain : Bytes := utf8 "mini-consensus/proposal/v3"

/-- What the proposer signs. -/
def transcript (height : UInt64) (round : UInt32) (validRound : Int64) (blockHash bodyHash : Hash)
    (proposerRoot : Did) : Bytes :=
  signDomain ++ toBeBytes height ++ toBeBytes round ++ toBeBytes validRound ++ blockHash.bytes ++
    bodyHash.bytes ++ framed UInt32 (utf8 proposerRoot.asStr)

end Proposal

/-- Verify a proposal against the logs of its claimed root and device. -/
def verifyProposal {Kel : Type} [KelOps Kel] (p : Proposal) (rootKel deviceKel : Kel) :
    Except ConsensusError Unit := do
  failIf (p.header.bodyRoot ≠ p.body.hash) .malformed
  failIf ((KelOps.did deviceKel).asStr ≠ p.proposerDevice.asStr ∨
    (KelOps.did rootKel).asStr ≠ p.proposerRoot.asStr) .malformed
  let caps ← (KelOps.verifyDelegation rootKel deviceKel).mapError fun _ => .malformed
  failIf (¬ caps.contains Capabilities.vote) .malformed
  (KelOps.verifyMessage deviceKel (Proposal.transcript p.header.height p.round p.validRound
    p.header.hash p.body.hash p.proposerRoot) p.signature).mapError fun _ => .malformed

/-! ### Messages -/

inductive ConsensusMessage where
  | proposal (p : Proposal)
  | vote (v : Vote)

namespace ConsensusMessage

def domain : Bytes := utf8 "mini-consensus/msg/v3"

def tagProposal : UInt8 := 0

def tagVote : UInt8 := 1

def toWireBytes : ConsensusMessage → Bytes
  | .proposal p =>
    domain ++ ([tagProposal] ++ (toBeBytes p.round ++ (toBeBytes p.validRound ++
      (p.proposerRoot.wireBytes ++ (p.proposerDevice.wireBytes ++ (p.header.encodeHeader ++
      (p.body.encodeBody ++ IndexedSig.listBytes p.signature)))))))
  | .vote v => domain ++ ([tagVote] ++ framed UInt32 v.toWireBytes)

def readProposal : Reader ConsensusError Proposal := do
  let round ← word .malformed UInt32
  let validRound ← word .malformed Int64
  let proposerRoot ← Did.read .malformed .tooLarge
  let proposerDevice ← Did.read .malformed .tooLarge
  let header ← BlockHeader.decodeHeader
  let body ← SettlementBlockBody.decodeBody
  let signature ← IndexedSig.readList .malformed .tooLarge
  return { round, validRound, proposerRoot, proposerDevice, header, body, signature }

/-- Read a vote behind its length. -/
def readVote : Reader ConsensusError Vote := do
  let bytes ← readFramed .malformed .tooLarge UInt32 maxMessageBytes
  lift ((Vote.fromWireBytes bytes).mapError fun _ => .malformed)

def read : Reader ConsensusError ConsensusMessage := do
  expect .malformed .malformed domain
  let tag ← word .malformed UInt8
  if tag = tagProposal then ConsensusMessage.proposal <$> readProposal
  else if tag = tagVote then ConsensusMessage.vote <$> readVote
  else throw .malformed

def fromWireBytes (bytes : Bytes) : Except ConsensusError ConsensusMessage := do
  failIf (maxMessageBytes < bytes.length) .tooLarge
  let (message, rest) ← read.run bytes
  failIf (rest ≠ []) .malformed
  return message

lemma reads_readVote {v : Vote} (h : v.Portable) :
    Reads readVote (framed UInt32 v.toWireBytes) v := by
  have hlen := Vote.length_toWireBytes_le h
  refine (reads_framed _ _ (hlen.trans (by decide)) (hlen.trans_lt (by decide))).bind_lift ?_
  exact mapError_ok.mpr (Vote.fromWireBytes_toWireBytes h)

/-- A message read whole is decoded. -/
lemma fromWireBytes_ok {m : ConsensusMessage} {bs : Bytes} (hlen : bs.length ≤ maxMessageBytes)
    (h : Reads read bs m) : fromWireBytes bs = .ok m := by
  refine failIf_bind_ok.mpr ⟨not_lt.mpr hlen, bind_ok.mpr ⟨(m, []), h.run, ?_⟩⟩
  exact failIf_bind_ok.mpr ⟨by simp, rfl⟩

lemma reads_read_vote {v : Vote} (h : v.Portable) :
    Reads read (toWireBytes (.vote v)) (.vote v) := by
  refine (reads_expect _ _ _).bind ((reads_byte _ tagVote).bind ?_)
  exact Reads.map ConsensusMessage.vote (reads_readVote h)

end ConsensusMessage

/-- A proposal within the wire's caps. -/
structure Proposal.Portable (p : Proposal) : Prop where
  proposerRoot : p.proposerRoot.Portable
  proposerDevice : p.proposerDevice.Portable
  headerProposer : p.header.proposer.Portable
  body : p.body.Portable
  signature : p.signature.length ≤ maxSignatures
  length_le : (ConsensusMessage.toWireBytes (.proposal p)).length ≤ maxMessageBytes

lemma ConsensusMessage.reads_read_proposal {p : Proposal} (h : p.Portable) :
    Reads read (toWireBytes (.proposal p))
      (.proposal { p with body := { p.body with nullifiers := [] } }) := by
  refine (reads_expect _ _ _).bind ((reads_byte _ tagProposal).bind ?_)
  refine Reads.map ConsensusMessage.proposal ?_
  refine (reads_word _ p.round).bind ?_
  refine (reads_word _ p.validRound).bind ?_
  refine (Did.reads_read _ _ h.proposerRoot).bind ?_
  refine (Did.reads_read _ _ h.proposerDevice).bind ?_
  refine (BlockHeader.reads_decodeHeader h.headerProposer).bind ?_
  refine (SettlementBlockBody.reads_decodeBody h.body).bind ?_
  exact (IndexedSig.reads_readList _ _ h.signature).bind_pure

/-! ### Finalized blocks -/

namespace QuorumCertificate

def encodeQc (qc : QuorumCertificate) : Bytes :=
  toBeBytes qc.height ++ (toBeBytes qc.round ++ (qc.blockHash.bytes ++
    (countBytes UInt32 qc.votes.length ++ qc.votes.flatMap fun v => framed UInt32 v.toWireBytes)))

def decodeQc : Reader ConsensusError QuorumCertificate := do
  let height ← word .malformed UInt64
  let round ← word .malformed UInt32
  let blockHash ← Hash.read .malformed
  let count ← readCount .malformed .tooLarge UInt32 maxVotesPerCertificate
  let votes ← readMany ConsensusMessage.readVote count
  return { height, round, blockHash, votes }

/-- A certificate within the wire's caps. -/
structure Portable (qc : QuorumCertificate) : Prop where
  votes : qc.votes.length ≤ maxVotesPerCertificate
  vote : ∀ v ∈ qc.votes, v.Portable

lemma reads_decodeQc {qc : QuorumCertificate} (h : qc.Portable) :
    Reads decodeQc qc.encodeQc qc := by
  refine (reads_word _ qc.height).bind ?_
  refine (reads_word _ qc.round).bind ?_
  refine (Hash.reads_read _ qc.blockHash).bind ?_
  refine (reads_readCount _ _ h.votes (h.votes.trans_lt (by decide))).bind ?_
  exact (reads_readMany fun v hv => ConsensusMessage.reads_readVote (h.vote v hv)).bind_pure

end QuorumCertificate

/-- A block with the certificate that finalized it. -/
structure FinalizedBlock where
  header : BlockHeader
  body : SettlementBlockBody
  qc : QuorumCertificate

namespace FinalizedBlock

def domain : Bytes := utf8 "mini-consensus/finalized-block/v2"

def wireBytes (b : FinalizedBlock) : Bytes :=
  domain ++ (b.header.encodeHeader ++ (b.body.encodeBody ++ b.qc.encodeQc))

def toWireBytes (b : FinalizedBlock) : Except ConsensusError Bytes := do
  failIf (b.header.bodyRoot ≠ b.body.hash) .malformed
  failIf (maxMessageBytes < b.wireBytes.length) .tooLarge
  return b.wireBytes

def read : Reader ConsensusError FinalizedBlock := do
  expect .malformed .malformed domain
  let header ← BlockHeader.decodeHeader
  let body ← SettlementBlockBody.decodeBody
  let qc ← QuorumCertificate.decodeQc
  return { header, body, qc }

def fromWireBytes (bytes : Bytes) : Except ConsensusError FinalizedBlock := do
  failIf (maxMessageBytes < bytes.length) .tooLarge
  let (block, rest) ← read.run bytes
  failIf (rest ≠ [] ∨ block.header.bodyRoot ≠ block.body.hash) .malformed
  let again ← block.toWireBytes
  failIf (again ≠ bytes) .malformed
  return block

/-- A block within the wire's caps. -/
structure Portable (b : FinalizedBlock) : Prop where
  headerProposer : b.header.proposer.Portable
  body : b.body.Portable
  qc : b.qc.Portable

variable {b : FinalizedBlock} {bs : Bytes}

lemma reads_read (h : b.Portable) :
    Reads read b.wireBytes { b with body := { b.body with nullifiers := [] } } := by
  refine (reads_expect _ _ _).bind ?_
  refine (BlockHeader.reads_decodeHeader h.headerProposer).bind ?_
  refine (SettlementBlockBody.reads_decodeBody h.body).bind ?_
  exact (QuorumCertificate.reads_decodeQc h.qc).bind_pure

lemma toWireBytes_ok : b.toWireBytes = .ok bs ↔ b.header.bodyRoot = b.body.hash ∧
      b.wireBytes.length ≤ maxMessageBytes ∧ b.wireBytes = bs := by
  simp only [toWireBytes, failIf_bind_ok, pure_ok, not_lt, ne_eq, not_not]

/-- Whatever a finalized block's encoding decodes to has no nullifier records. -/
lemma nullifiers_of_fromWireBytes {b' : FinalizedBlock} (h : b.Portable)
    (hok : fromWireBytes b.wireBytes = .ok b') : b'.body.nullifiers = [] := by
  obtain ⟨-, hok⟩ := failIf_bind_ok.mp hok
  obtain ⟨⟨block, rest⟩, hrun, hok⟩ := bind_ok.mp hok
  rw [(reads_read h).run] at hrun
  cases hrun
  simp only [↓failIf_bind_ok, bind_ok] at hok
  obtain ⟨-, again, -, -, hok⟩ := hok
  cases hok
  rfl

lemma fromWireBytes_toWireBytes (h : b.Portable) (hnone : b.body.nullifiers = [])
    (hbs : b.toWireBytes = .ok bs) : fromWireBytes bs = .ok b := by
  obtain ⟨hroot, hlen, rfl⟩ := toWireBytes_ok.mp hbs
  have hread : Reads read b.wireBytes b := by
    have hread := reads_read h
    rwa [SettlementBlockBody.eq_of_nullifiers_eq_nil.mpr hnone] at hread
  refine failIf_bind_ok.mpr ⟨not_lt.mpr hlen, bind_ok.mpr ⟨(b, []), hread.run, ?_⟩⟩
  refine failIf_bind_ok.mpr ⟨by simp [hroot], bind_ok.mpr ⟨_, hbs, ?_⟩⟩
  exact failIf_bind_ok.mpr ⟨by simp, rfl⟩

end FinalizedBlock

/-! ### What the wire carries -/

end

/-- A block with a given body, certified by nobody. -/
def sampleBlock [Primitives] (body : SettlementBlockBody) : FinalizedBlock where
  header :=
    { height := 1, prevHash := .zero, stateRoot := .zero, bodyRoot := body.hash, timestampMs := 1
      proposer := ⟨"a"⟩ }
  body := body
  qc := { height := 1, round := 0, blockHash := .zero, votes := [] }

def sampleProposal [Primitives] (body : SettlementBlockBody) : Proposal where
  round := 0
  validRound := -1
  proposerRoot := ⟨"a"⟩
  proposerDevice := ⟨"a"⟩
  header := (sampleBlock body).header
  body := body
  signature := []

def sampleVote : Vote where
  kind := .prevote
  height := 1
  round := 0
  blockHash := .zero
  validatorRoot := ⟨"a"⟩
  validatorDevice := ⟨"a"⟩
  signature := []

lemma portable_sample : @Did.Portable .sample ⟨"a"⟩ := by
  let := Primitives.sample
  exact ⟨rfl, by decide⟩

lemma portable_empty : ({} : SettlementBlockBody).Portable :=
  ⟨by decide, by simp, by decide, by decide, by simp⟩

/-- A body that spends one shielded output and does nothing else. -/
def shieldedBody : SettlementBlockBody where
  nullifiers := [⟨[1], .zero⟩]

lemma portable_shieldedBody : shieldedBody.Portable :=
  ⟨by decide, by simp [shieldedBody], by decide, by decide, by simp [shieldedBody]⟩

lemma fits_empty : ({} : SettlementBlockBody).Fits :=
  ⟨by decide, by simp, by decide, by simp, by decide, by simp⟩

lemma fits_shieldedBody : shieldedBody.Fits :=
  ⟨by decide, by simp [shieldedBody], by decide, by simp [shieldedBody], by decide,
    by simp [shieldedBody]⟩

/-! ### What a proposal's signature binds -/

/-- **The body root binds the terms of the body.** Where no two of the strings hashed collide, two
bodies have one hash exactly when they differ at most in the signatures of their claims; and a
proposal that verifies still does with another body in its place exactly in that case. -/
theorem bodyRoot_binds_terms [Primitives] {Kel : Type} [KelOps Kel] (a b : SettlementBlockBody)
    (ha : a.Fits) (hb : b.Fits) (hinj : Set.InjOn blake3 (a.hashed ∪ b.hashed)) :
    (a.hash = b.hash ↔ a.SameTerms b) ∧
    ∀ (p : Proposal) (rootKel deviceKel : Kel), p.body = a →
      verifyProposal p rootKel deviceKel = .ok () →
      (verifyProposal { p with body := b } rootKel deviceKel = .ok () ↔ a.SameTerms b) := by
  have hiff : a.hash = b.hash ↔ a.SameTerms b :=
    ⟨SettlementBlockBody.sameTerms_of_hash_eq ha hb hinj, SettlementBlockBody.SameTerms.hash_eq⟩
  refine ⟨hiff, fun p rootKel deviceKel hbody hok => ?_⟩
  subst hbody
  rw [← hiff]
  constructor
  · intro hok'
    have hroot := not_not.mp (failIf_bind_ok.mp hok).1
    have hroot' := not_not.mp (failIf_bind_ok.mp hok').1
    exact hroot.symm.trans hroot'
  · intro hhash
    unfold verifyProposal at hok ⊢
    rwa [← hhash]

/-- A claim that is never executed here: only its signature is looked at. -/
def sampleClaim (fill : UInt8) : PaymentClaim where
  networkId := .zero
  payer := []
  payee := []
  amountMicro := 1
  sequence := 0
  validUntilMs := 0
  lastKnownChain := []
  signature := .filled fill

lemma injOn_hashed_sample :
    letI := Primitives.sample
    Set.InjOn blake3 (({} : SettlementBlockBody).hashed ∪ shieldedBody.hashed) := by
  let := Primitives.sample
  rw [SettlementBlockBody.hashed_eq_singleton (b := {}) rfl,
    SettlementBlockBody.hashed_eq_singleton (b := shieldedBody) rfl, Set.singleton_union,
    Set.injOn_pair]
  exact fun h => absurd h (by decide +kernel)

lemma verifyProposal_sample : @verifyProposal .sample SampleKel _ (@sampleProposal .sample {})
    ⟨⟨"a"⟩⟩ ⟨⟨"a"⟩⟩ = .ok () := rfl

theorem bodyRoot_binds_terms_empty :
    letI := Primitives.sample
    ({} : SettlementBlockBody).hash ≠ shieldedBody.hash ∧
      verifyProposal (sampleProposal {}) (⟨⟨"a"⟩⟩ : SampleKel) ⟨⟨"a"⟩⟩ = .ok () ∧
      verifyProposal { sampleProposal {} with body := shieldedBody } (⟨⟨"a"⟩⟩ : SampleKel)
        ⟨⟨"a"⟩⟩ ≠ .ok () := by
  let := Primitives.sample
  have hterms : ¬ ({} : SettlementBlockBody).SameTerms shieldedBody := fun h =>
    absurd h.nullifiers (by decide)
  obtain ⟨hhash, hverify⟩ := @bodyRoot_binds_terms _ SampleKel _ {} shieldedBody fits_empty
    fits_shieldedBody injOn_hashed_sample
  refine ⟨fun h => hterms (hhash.mp h), verifyProposal_sample, fun h => hterms ?_⟩
  exact (hverify (sampleProposal {}) _ _ rfl verifyProposal_sample).mp h

theorem signature_not_bound :
    letI := Primitives.sample
    ({ claims := [sampleClaim 0] } : SettlementBlockBody) ≠ { claims := [sampleClaim 1] } ∧
      ({ claims := [sampleClaim 0] } : SettlementBlockBody).hash =
        ({ claims := [sampleClaim 1] } : SettlementBlockBody).hash ∧
      verifyProposal (sampleProposal { claims := [sampleClaim 0] }) (⟨⟨"a"⟩⟩ : SampleKel)
        ⟨⟨"a"⟩⟩ = .ok () ∧
      verifyProposal { sampleProposal { claims := [sampleClaim 0] } with
        body := { claims := [sampleClaim 1] } } (⟨⟨"a"⟩⟩ : SampleKel) ⟨⟨"a"⟩⟩ = .ok () := by
  let := Primitives.sample
  refine ⟨by decide +kernel, by decide +kernel, rfl, rfl⟩

end Mininet

import Mininet.Chain.Finality
import Mininet.Execution.Steps

/-!
# The chain of finalized states

A `LedgerChain` advances one block at a time, and only behind a certificate that verifies. It can
also start in the middle, from a state that a finalized header commits to.
-/

namespace Mininet

open Codec Fallible

structure LedgerChain where
  height : UInt64
  tipHash : Hash
  state : LedgerState

/-- The certificates' failures, as the chain reports them. -/
def liftChain {α : Type} (x : Except ChainError α) : Except ExecutionError α :=
  x.mapError .notFinalized

namespace LedgerState

variable [Primitives]

def shieldedGenesisCommitment (s : LedgerState) : Hash := s.shielded.genesisCommitment

omit [Primitives] in
def verifyShieldedClaims (s : LedgerState) (verifier : Option ClaimVerifier) :
    Except ExecutionError Unit :=
  s.shielded.verifyReplay s.networkId s.nullifiers verifier

end LedgerState

namespace LedgerChain

/-! ### Genesis -/

/-- A chain at height zero. -/
def atGenesis (state : LedgerState) : LedgerChain where
  height := 0
  tipHash := .zero
  state := state

def genesisForNetwork (networkId : Hash) (genesisCirculating : Amount) : LedgerChain :=
  atGenesis (.withNetworkAndGenesisSupply networkId genesisCirculating)

def genesisWithSupply (genesisCirculating : Amount) : LedgerChain :=
  genesisForNetwork mininetNetworkId genesisCirculating

def genesis : LedgerChain := genesisWithSupply Amount.zero

def genesisWithShieldedAllocations (networkId : Hash)
    (allocations : List ShieldedGenesisAllocation) (verifier : ClaimVerifier) :
    Except ExecutionError LedgerChain := do
  let state ← LedgerState.withShieldedGenesis networkId allocations verifier
  return atGenesis state

variable [Primitives]

def genesisWithNetworkBalances (networkId : Hash) (genesisCirculating : Amount)
    (allocations : List (Bytes × Amount)) : Except ExecutionError LedgerChain := do
  let state ← LedgerState.withNetworkAndGenesisBalances networkId genesisCirculating allocations
  return atGenesis state

def genesisWithBalances (genesisCirculating : Amount) (allocations : List (Bytes × Amount)) :
    Except ExecutionError LedgerChain :=
  genesisWithNetworkBalances mininetNetworkId genesisCirculating allocations

variable {Kel : Type} [KelOps Kel]

/-! ### Advancing -/

/-- Advance by one finalized block. The height is a machine integer and its successor wraps. -/
def applyFinalizedBlockWithVerifier (chain : LedgerChain) (header : BlockHeader)
    (body : SettlementBlockBody) (qc : QuorumCertificate) (validators : ValidatorSet)
    (oracle : ValidatorOracle Kel) (claimVerifier : Option ClaimVerifier) :
    Except ExecutionError (LedgerChain × Hash) := do
  failIf (maxClaimsPerBlock < body.claims.length) .tooManyClaims
  failIf (maxMonetaryEpochsPerBlock < body.monetaryEpochs.length) .tooManyMonetaryEpochs
  body.monetaryEpochs.forM fun epoch => do
    let _ ← epoch.toWireBytes.mapError .invalidMonetaryEpoch
    return ()
  failIf (header.bodyRoot ≠ body.hash) .bodyRootMismatch
  let _ ← liftChain (verifyFinality qc validators oracle)
  let expectedHeight := chain.height + 1
  failIf (header.height ≠ expectedHeight) (.wrongHeight expectedHeight header.height)
  failIf (header.prevHash ≠ chain.tipHash) .wrongParent
  failIf (header.timestampMs ≠ expectedHeight)
    (.timestampNotDeterministic expectedHeight header.timestampMs)
  failIf (qc.height ≠ header.height ∨ qc.blockHash ≠ header.hash)
    (.notFinalized (.quorumNotMet validators.quorumThreshold 0))
  let nextState ← chain.state.applyBlockWithVerifier body claimVerifier
  let commitment := nextState.commitment
  failIf (header.stateRoot ≠ commitment) .stateRootMismatch
  return ({ height := header.height, tipHash := header.hash, state := nextState }, commitment)

/-- Start from a state that a finalized header commits to. -/
def fromFinalizedSnapshotWithVerifier (header : BlockHeader) (state : LedgerState)
    (qc : QuorumCertificate) (validators : ValidatorSet) (oracle : ValidatorOracle Kel)
    (expectedNetworkId expectedShieldedGenesis : Hash) (claimVerifier : Option ClaimVerifier) :
    Except ExecutionError LedgerChain := do
  failIf (state.networkId ≠ expectedNetworkId) .snapshotWrongNetwork
  failIf (state.shieldedGenesisCommitment ≠ expectedShieldedGenesis) .shieldedGenesisMismatch
  state.verifyShieldedClaims claimVerifier
  state.verifySupplyConservation
  state.verifyBalanceMapTotal
  let _ ← liftChain (verifyFinality qc validators oracle)
  failIf (header.height = 0 ∨ header.timestampMs ≠ header.height ∨ qc.height ≠ header.height ∨
    qc.blockHash ≠ header.hash) .snapshotProofMismatch
  failIf (header.stateRoot ≠ state.commitment) .stateRootMismatch
  return { height := header.height, tipHash := header.hash, state := state }

/-! ### What advancing needs -/

/-- A certified successor: everything an applied block satisfies but the execution of its body. -/
structure Certifies (chain : LedgerChain) (header : BlockHeader) (qc : QuorumCertificate)
    (validators : ValidatorSet) (oracle : ValidatorOracle Kel) : Prop where
  final : ∃ n, verifyFinality qc validators oracle = .ok n
  height : header.height = chain.height + 1
  prevHash : header.prevHash = chain.tipHash
  timestamp : header.timestampMs = header.height
  qcHeight : qc.height = header.height
  qcHash : qc.blockHash = header.hash

omit [Primitives] in
lemma liftChain_ok {α : Type} {x : Except ChainError α} {a : α} :
    liftChain x = .ok a ↔ x = .ok a := mapError_ok

variable {chain : LedgerChain} {header : BlockHeader} {body : SettlementBlockBody}
  {qc : QuorumCertificate} {validators : ValidatorSet} {oracle : ValidatorOracle Kel}
  {claimVerifier : Option ClaimVerifier} {verifier : ClaimVerifier}

/-- An applied block is certified, and its header commits to the state it leads to. -/
lemma applyFinalizedBlockWithVerifier_ok {chain chain' : LedgerChain} {commitment : Hash}
    (h : chain.applyFinalizedBlockWithVerifier header body qc validators oracle claimVerifier =
      .ok (chain', commitment)) :
    chain.Certifies header qc validators oracle ∧
      chain.state.applyBlockWithVerifier body claimVerifier = .ok chain'.state ∧
      header.stateRoot = chain'.state.commitment ∧ chain'.height = header.height ∧
      chain'.tipHash = header.hash ∧ commitment = chain'.state.commitment := by
  simp only [applyFinalizedBlockWithVerifier, ↓failIf_bind_ok, bind_ok, not_or, not_not] at h
  obtain ⟨-, -, -, -, -, -, n, hfinal, hheight, hprev, htime, hqc, next, hnext, hroot, hresult⟩ := h
  cases hresult
  exact ⟨⟨⟨n, liftChain_ok.mp hfinal⟩, hheight, hprev, htime.trans hheight.symm, hqc.1, hqc.2⟩,
    hnext, hroot, rfl, rfl, rfl⟩

/-- A block the chain accepts once it is certified. -/
structure Extends (chain : LedgerChain) (claimVerifier : Option ClaimVerifier)
    (header : BlockHeader) (body : SettlementBlockBody) : Prop where
  height : header.height = chain.height + 1
  prevHash : header.prevHash = chain.tipHash
  timestamp : header.timestampMs = header.height
  bodyRoot : header.bodyRoot = body.hash
  executes : ∃ next, chain.state.applyBlockWithVerifier body claimVerifier = .ok next ∧
    header.stateRoot = next.commitment

/-- The checks made before the certificate is verified are made again in executing the body. -/
lemma Extends.applyFinalizedBlock (h : chain.Extends claimVerifier header body) {k : ℕ}
    (hfinal : verifyFinality qc validators oracle = .ok k) (hheight : qc.height = header.height)
    (hhash : qc.blockHash = header.hash) :
    ∃ result, chain.applyFinalizedBlockWithVerifier header body qc validators oracle claimVerifier =
      .ok result := by
  obtain ⟨next, hnext, hroot⟩ := h.executes
  obtain ⟨hclaims, hepochs, hwire⟩ := LedgerState.caps_of_applyBlockWithVerifier hnext
  have hforM : (body.monetaryEpochs.forM fun epoch => do
      let _ ← epoch.toWireBytes.mapError ExecutionError.invalidMonetaryEpoch
      return ()) = .ok () := by
    refine forM_ok.mpr fun epoch hepoch => ?_
    obtain ⟨bytes, hbytes⟩ := hwire epoch hepoch
    exact bind_ok.mpr ⟨bytes, mapError_ok.mpr hbytes, rfl⟩
  refine ⟨({ height := header.height, tipHash := header.hash, state := next }, next.commitment),
    failIf_bind_ok.mpr ⟨not_lt.mpr hclaims, ?_⟩⟩
  refine failIf_bind_ok.mpr ⟨not_lt.mpr hepochs, bind_ok.mpr ⟨(), hforM, ?_⟩⟩
  refine failIf_bind_ok.mpr ⟨not_not.mpr h.bodyRoot, ?_⟩
  refine bind_ok.mpr ⟨k, liftChain_ok.mpr hfinal, ?_⟩
  refine failIf_bind_ok.mpr ⟨not_not.mpr h.height, ?_⟩
  refine failIf_bind_ok.mpr ⟨not_not.mpr h.prevHash, ?_⟩
  refine failIf_bind_ok.mpr ⟨not_not.mpr (h.timestamp.trans h.height), ?_⟩
  refine failIf_bind_ok.mpr ⟨by simp [hheight, hhash], ?_⟩
  refine bind_ok.mpr ⟨next, hnext, ?_⟩
  exact failIf_bind_ok.mpr ⟨not_not.mpr hroot, rfl⟩

/-! ### Runs -/

/-- A chain at genesis, its shielded funds checked by the verifier. -/
inductive Genesis (verifier : ClaimVerifier) : LedgerChain → Prop
  | supply (networkId : Hash) (genesisCirculating : Amount) :
      Genesis verifier (genesisForNetwork networkId genesisCirculating)
  | balances {networkId : Hash} {genesisCirculating : Amount} {allocations : List (Bytes × Amount)}
      {chain : LedgerChain}
      (h : genesisWithNetworkBalances networkId genesisCirculating allocations = .ok chain) :
      Genesis verifier chain
  | shielded {networkId : Hash} {allocations : List ShieldedGenesisAllocation}
      {chain : LedgerChain}
      (h : genesisWithShieldedAllocations networkId allocations verifier = .ok chain) :
      Genesis verifier chain

lemma Genesis.height_eq (h : Genesis verifier chain) : chain.height = 0 := by
  cases h with
  | supply => rfl
  | balances h =>
    obtain ⟨state, -, hresult⟩ := bind_ok.mp h
    cases hresult
    rfl
  | shielded h =>
    obtain ⟨state, -, hresult⟩ := bind_ok.mp h
    cases hresult
    rfl

lemma Genesis.state (h : Genesis verifier chain) : chain.state.Genesis := by
  cases h with
  | supply networkId genesisCirculating => exact .supply networkId genesisCirculating
  | balances h =>
    obtain ⟨state, hstate, hresult⟩ := bind_ok.mp h
    cases hresult
    exact .balances hstate
  | shielded h =>
    obtain ⟨state, hstate, hresult⟩ := bind_ok.mp h
    cases hresult
    exact .shielded hstate

/-- A block as it is delivered: with its certificate, and the validators it is checked against. -/
structure Delivery (Kel : Type) where
  header : BlockHeader
  body : SettlementBlockBody
  qc : QuorumCertificate
  validators : ValidatorSet
  oracle : ValidatorOracle Kel

def deliver (chain : LedgerChain) (d : Delivery Kel) (claimVerifier : Option ClaimVerifier) :
    Except ExecutionError (LedgerChain × Hash) :=
  chain.applyFinalizedBlockWithVerifier d.header d.body d.qc d.validators d.oracle claimVerifier

/-- A chain advances by a list of deliveries, the last one last. -/
inductive Runs (claimVerifier : Option ClaimVerifier) (start : LedgerChain) :
    List (Delivery Kel) → LedgerChain → Prop
  | nil : Runs claimVerifier start [] start
  | snoc {deliveries : List (Delivery Kel)} {chain chain' : LedgerChain} {d : Delivery Kel}
      {commitment : Hash} (hruns : Runs claimVerifier start deliveries chain)
      (happly : chain.deliver d claimVerifier = .ok (chain', commitment)) :
      Runs claimVerifier start (deliveries ++ [d]) chain'

variable {start : LedgerChain} {deliveries : List (Delivery Kel)}

/-- What executing a body keeps of the state, a run keeps. -/
lemma Runs.invariant {P : LedgerState → Prop}
    (hstep : ∀ s body s', P s → s.applyBlockWithVerifier body claimVerifier = .ok s' → P s')
    (h : Runs claimVerifier start deliveries chain) (hstart : P start.state) : P chain.state := by
  induction h with
  | nil => exact hstart
  | snoc _ happly ih =>
    exact hstep _ _ _ ih (applyFinalizedBlockWithVerifier_ok happly).2.1

/-- The height counts the blocks, modulo the range of a machine integer. -/
lemma Runs.height_eq (h : Runs claimVerifier start deliveries chain) :
    chain.height = start.height + UInt64.ofNat deliveries.length := by
  induction h with
  | nil => simp
  | snoc _ happly ih =>
    obtain ⟨hcertified, -, -, hheight, -, -⟩ := applyFinalizedBlockWithVerifier_ok happly
    rw [hheight, hcertified.height, ih, List.length_append, List.length_singleton,
      UInt64.ofNat_add, UInt64.add_assoc]
    rfl

end LedgerChain

/-! ### Sample blocks -/

/-- A certificate that three of the four sample validators sign. -/
def sampleFinality (height : UInt64) (blockHash : Hash) : QuorumCertificate where
  height := height
  round := 0
  blockHash := blockHash
  votes := ["a", "b", "c"].map fun scid => {
    kind := .precommit
    height := height
    round := 0
    blockHash := blockHash
    validatorRoot := ⟨scid⟩
    validatorDevice := ⟨scid ++ "-device"⟩
    signature := [] }

lemma verifies_sampleOracle (vote : Vote) : verifies sampleOracle vote = true := by
  simp [verifies, sampleOracle, verifyVote, KelOps.did, KelOps.verifyDelegation,
    KelOps.verifyMessage]
  rfl

lemma verifyFinality_sampleFinality (height : UInt64) (blockHash : Hash) :
    verifyFinality (sampleFinality height blockHash) .sample sampleOracle = .ok 3 := by
  have hcertifies : ∀ vote ∈ (sampleFinality height blockHash).votes,
      vote.Certifies sampleOracle (sampleFinality height blockHash) := by
    intro vote hvote
    obtain ⟨scid, -, rfl⟩ := List.mem_map.mp hvote
    exact ⟨rfl, rfl, rfl, rfl, verifies_sampleOracle _⟩
  refine verifyFinality_ok_iff.mpr
    ⟨by simp [sampleFinality, maxVotesPerCertificate, maxValidators], by decide,
      {⟨"a"⟩, ⟨"b"⟩, ⟨"c"⟩}, rfl, ?_⟩
  intro d
  constructor
  · intro hd
    have hroot : ∃ vote ∈ (sampleFinality height blockHash).votes, vote.validatorRoot = d := by
      simpa [sampleFinality, eq_comm] using hd
    obtain ⟨vote, hvote, rfl⟩ := hroot
    refine ⟨?_, vote, hvote, hcertifies vote hvote, rfl⟩
    obtain ⟨scid, hscid, rfl⟩ := List.mem_map.mp hvote
    fin_cases hscid <;> simp [ValidatorSet.sample]
  · rintro ⟨-, vote, hvote, -, rfl⟩
    obtain ⟨scid, hscid, rfl⟩ := List.mem_map.mp hvote
    fin_cases hscid <;> simp

namespace LedgerChain

variable [Primitives]

/-- The block of a body that leads to a state, certified by the sample validators. -/
def sampleBlock (chain : LedgerChain) (body : SettlementBlockBody) (next : LedgerState) :
    Delivery SampleKel :=
  let header : BlockHeader := {
    height := chain.height + 1
    prevHash := chain.tipHash
    stateRoot := next.commitment
    bodyRoot := body.hash
    timestampMs := chain.height + 1
    proposer := ⟨"a"⟩ }
  { header := header
    body := body
    qc := sampleFinality header.height header.hash
    validators := .sample
    oracle := sampleOracle }

lemma deliver_sampleBlock {chain : LedgerChain} {body : SettlementBlockBody} {next : LedgerState}
    {claimVerifier : Option ClaimVerifier} (hclaims : body.claims.length ≤ maxClaimsPerBlock)
    (hepochs : body.monetaryEpochs = [])
    (h : chain.state.applyBlockWithVerifier body claimVerifier = .ok next) :
    chain.deliver (chain.sampleBlock body next) claimVerifier = .ok
      ({ height := chain.height + 1
         tipHash := (chain.sampleBlock body next).header.hash
         state := next }, next.commitment) := by
  refine failIf_bind_ok.mpr ⟨not_lt.mpr hclaims, failIf_bind_ok.mpr ⟨?_, ?_⟩⟩
  · rw [show (chain.sampleBlock body next).body.monetaryEpochs = [] from hepochs]
    exact Nat.not_lt_zero _
  refine bind_ok.mpr ⟨(), ?_, ?_⟩
  · rw [show (chain.sampleBlock body next).body.monetaryEpochs = [] from hepochs]
    rfl
  refine failIf_bind_ok.mpr ⟨not_not.mpr rfl, ?_⟩
  refine bind_ok.mpr ⟨3, liftChain_ok.mpr (verifyFinality_sampleFinality _ _), ?_⟩
  refine failIf_bind_ok.mpr ⟨not_not.mpr rfl, failIf_bind_ok.mpr ⟨not_not.mpr rfl, ?_⟩⟩
  refine failIf_bind_ok.mpr ⟨not_not.mpr rfl, failIf_bind_ok.mpr ⟨?_, ?_⟩⟩
  · simp [sampleBlock, sampleFinality]
  refine bind_ok.mpr ⟨next, h, failIf_bind_ok.mpr ⟨not_not.mpr rfl, rfl⟩⟩

end LedgerChain

end Mininet

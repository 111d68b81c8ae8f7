import Mininet.Consensus.RoundSteps
import Mininet.Consensus.Wire
import Mininet.Execution.Chain

/-!
# The consensus node

A node keeps a chain and the round driver of its next height. It validates what it is told before
the driver hears of it, carries out what the driver asks for, and commits what the driver decides.
The functions here are the pieces of a call up to the next action to carry out; `Machine` puts them
together.
-/

namespace Mininet

open Codec Fallible
open Std (ExtTreeMap)

/-! ### Signing -/

/-- A device's controller: its identifier, and what it signs messages with. -/
structure Device where
  did : Did
  signMessage : Bytes → List IndexedSig

def signVote (kind : VoteKind) (height : UInt64) (round : UInt32) (blockHash : Hash)
    (validatorRoot : Did) (device : Device) : Vote where
  kind := kind
  height := height
  round := round
  blockHash := blockHash
  validatorRoot := validatorRoot
  validatorDevice := device.did
  signature := device.signMessage (Vote.transcript kind height round blockHash)

def signProposal [Primitives] (round : UInt32) (validRound : Int64) (header : BlockHeader)
    (body : SettlementBlockBody) (proposerRoot : Did) (device : Device) : Proposal where
  round := round
  validRound := validRound
  proposerRoot := proposerRoot
  proposerDevice := device.did
  header := header
  body := body
  signature := device.signMessage
    (Proposal.transcript header.height round validRound header.hash body.hash proposerRoot)

/-! ### State sync -/

/-- A state at a finalized height. -/
structure ConsensusSnapshot where
  header : BlockHeader
  qc : QuorumCertificate
  state : LedgerState

namespace ConsensusSnapshot

def height (s : ConsensusSnapshot) : UInt64 := s.header.height

def intoChainWithVerifier [Primitives] {Kel : Type} [KelOps Kel] (s : ConsensusSnapshot)
    (expectedNetworkId : Hash) (validators : ValidatorSet) (oracle : ValidatorOracle Kel)
    (expectedShieldedGenesis : Hash) (verifier : Option ClaimVerifier) :
    Except ConsensusError LedgerChain :=
  (LedgerChain.fromFinalizedSnapshotWithVerifier s.header s.state s.qc validators oracle
    expectedNetworkId expectedShieldedGenesis verifier).mapError .execution

end ConsensusSnapshot

/-- What a peer can supply. -/
inductive StateSyncPayload where
  | wrongNetwork
  | unavailable (earliestHeight tipHeight : UInt64)
  | blocks (blocks : List FinalizedBlock)
  | snapshot (snapshot : ConsensusSnapshot) (blocks : List FinalizedBlock)

structure StateSyncResponse where
  networkId : Hash
  payload : StateSyncPayload

namespace StateSyncResponse

def blocks (networkId : Hash) (blocks : List FinalizedBlock) : StateSyncResponse :=
  ⟨networkId, .blocks blocks⟩

def targetHeight (r : StateSyncResponse) : Option UInt64 :=
  match r.payload with
  | .blocks blocks            => blocks.getLast?.map fun b => b.header.height
  | .snapshot snapshot blocks =>
    some (blocks.getLast?.elim snapshot.height fun b => b.header.height)
  | .unavailable _ tipHeight  => some tipHeight
  | .wrongNetwork             => none

/-- Whether the response carries a chain up to a height. -/
def reaches (r : StateSyncResponse) (height : UInt64) : Bool :=
  match r.payload with
  | .blocks _ | .snapshot _ _ => r.targetHeight = some height
  | _                         => false

end StateSyncResponse

/-- Hard cap on the finalized blocks kept for peers. -/
def maxCatchupBlocks : ℕ := 1024

/-! ### The node -/

/-- What a node wants its host to do or know about. -/
inductive Emit where
  | broadcast (message : ConsensusMessage)
  | scheduleTimeout (height : UInt64) (round : UInt32) (step : Step)
  | committed (height : UInt64) (commitment : Hash)
  | equivocation (evidence : EquivocationEvidence)

/-- What the outside answers when a step asks it: the body source, the archive, and the iteration
order of a new hash map. -/
structure Environment where
  bodySource : UInt64 → SettlementBlockBody
  /-- The error of the archive, if it fails. -/
  archive : Option ConsensusError
  order : IterationOrder (UInt32 × ProposalInfo)

structure ConsensusNode (Kel : Type) where
  root : Did
  device : Device
  validators : ValidatorSet
  oracle : ValidatorOracle Kel
  chain : LedgerChain
  round : Round
  /-- The valid values of the current height, by block hash. -/
  values : ExtTreeMap Hash Proposal compare
  /-- Messages for later heights. -/
  pending : List ConsensusMessage
  history : List FinalizedBlock
  /-- Whether an archive is configured. -/
  archive : Bool
  claimVerifier : Option ClaimVerifier

/-- What a node is set up with. -/
structure NodeConfig (Kel : Type) where
  root : Did
  device : Device
  validators : ValidatorSet
  oracle : ValidatorOracle Kel

namespace ConsensusNode

variable {Kel : Type}

/-- A node at genesis. -/
def new (config : NodeConfig Kel) (order : IterationOrder (UInt32 × ProposalInfo)) :
    ConsensusNode Kel where
  root := config.root
  device := config.device
  validators := config.validators
  oracle := config.oracle
  chain := .genesis
  round := .new (LedgerChain.genesis.height + 1) config.validators config.root order
  values := ∅
  pending := []
  history := []
  archive := false
  claimVerifier := none

/-- A node at a configured genesis, whose shielded funds are verified. -/
def newWithGenesis (config : NodeConfig Kel) (genesis : LedgerChain)
    (verifier : Option ClaimVerifier) (order : IterationOrder (UInt32 × ProposalInfo)) :
    Except ConsensusError (ConsensusNode Kel) := do
  failIf (genesis.height ≠ 0) (.execution (.wrongHeight 0 genesis.height))
  (genesis.state.verifyShieldedClaims verifier).mapError .execution
  return { new config order with chain := genesis, claimVerifier := verifier }

/-- The height being decided. The tip's height is a machine integer and its successor wraps. -/
def currentHeight (n : ConsensusNode Kel) : UInt64 := n.chain.height + 1

def finalizedHeight (n : ConsensusNode Kel) : UInt64 := n.chain.height

def rememberHistory (n : ConsensusNode Kel) (block : FinalizedBlock) : ConsensusNode Kel :=
  let history := n.history ++ [block]
  { n with history := history.drop (history.length - maxCatchupBlocks) }

/-- The node on a new tip: a new driver, and no values. -/
def advanced (n : ConsensusNode Kel) (candidate : LedgerChain)
    (order : IterationOrder (UInt32 × ProposalInfo)) : ConsensusNode Kel :=
  { n with
    chain := candidate
    round := .new (candidate.height + 1) n.validators n.root order
    values := ∅ }

/-- Write to the archive, if there is one. -/
def persist (n : ConsensusNode Kel) (env : Environment) : Except ConsensusError Unit :=
  match n.archive, env.archive with
  | true, some e => .error e
  | _, _         => .ok ()

variable [Primitives] [KelOps Kel]

/-! ### Proposals -/

omit [Primitives] in
/-- Let the driver handle an event. -/
def tell (n : ConsensusNode Kel) (e : Round.Event) : ConsensusNode Kel × List Action :=
  let (round, actions) := n.round.handle n.oracle e
  ({ n with round := round }, actions)

/-- Whether a proposal is signed by the proposer of its height and round. -/
def proposalIsAuthentic (n : ConsensusNode Kel) (p : Proposal) : Bool :=
  if p.proposerRoot.scid ≠ (proposerFor p.header.height p.round n.validators).scid then false
  else
    match n.oracle p.proposerRoot, n.oracle p.proposerDevice with
    | some rootKel, some deviceKel => (verifyProposal p rootKel deviceKel).isOk
    | _, _                         => false

/-- The hash of a proposal's value, and whether the value extends the node's chain. -/
def validateProposal (n : ConsensusNode Kel) (p : Proposal) : Hash × Bool :=
  let header := p.header
  let hash := header.hash
  if header.height ≠ n.currentHeight ∨ header.prevHash ≠ n.chain.tipHash then (hash, false)
  else if header.timestampMs ≠ header.height then (hash, false)
  else if header.bodyRoot ≠ p.body.hash then (hash, false)
  else
    match n.chain.state.applyBlockWithVerifier p.body n.claimVerifier with
    | .ok next => (hash, decide (next.commitment = header.stateRoot))
    | .error _ => (hash, false)

/-- The value to propose: a cached one, or a new one from the body source. -/
def proposedValue (n : ConsensusNode Kel) (env : Environment) :
    Option Hash → Except ConsensusError (BlockHeader × SettlementBlockBody)
  | some hash => do
    let cached ← okOr n.values[hash]? .stalled
    return (cached.header, cached.body)
  | none => do
    let height := n.currentHeight
    let body := env.bodySource height
    let next ← (n.chain.state.applyBlockWithVerifier body n.claimVerifier).mapError .execution
    let header : BlockHeader := {
      height := height
      prevHash := n.chain.tipHash
      stateRoot := next.commitment
      bodyRoot := body.hash
      timestampMs := height
      proposer := n.root }
    return (header, body)

def buildProposal (n : ConsensusNode Kel) (env : Environment) (round : UInt32)
    (reuse : Option Hash) (validRound : Int64) : Except ConsensusError Proposal := do
  let (header, body) ← n.proposedValue env reuse
  return signProposal round validRound header body n.root n.device

/-! ### Messages -/

def messageHeight : ConsensusMessage → UInt64
  | .proposal p => p.header.height
  | .vote v     => v.height

/-- Take in a message: buffer it, drop it, or let the driver hear of it. What the driver asks for is
returned, to be driven. -/
def ingest (n : ConsensusNode Kel) (msg : ConsensusMessage) : ConsensusNode Kel × List Action :=
  let height := messageHeight msg
  if n.currentHeight < height then ({ n with pending := n.pending ++ [msg] }, [])
  else if height < n.currentHeight then (n, [])
  else
    match msg with
    | .proposal p =>
      if ¬ n.proposalIsAuthentic p then (n, [])
      else
        let (hash, valid) := n.validateProposal p
        let values := if valid then n.values.insertIfNew hash p else n.values
        { n with values := values }.tell (.proposal p.round hash p.validRound valid)
    | .vote v => n.tell (.vote v)

/-! ### Commits -/

/-- Apply a decided block behind its certificate and start the next height. What the new driver asks
for is returned, to be driven before the buffered messages are replayed. -/
def commit (n : ConsensusNode Kel) (env : Environment) (qc : QuorumCertificate) :
    Except ConsensusError (ConsensusNode Kel × Emit × List Action) := do
  let value ← okOr n.values[qc.blockHash]? .stalled
  let (candidate, commitment) ← (n.chain.applyFinalizedBlockWithVerifier value.header value.body qc
    n.validators n.oracle n.claimVerifier).mapError .execution
  n.persist env
  let next := (n.advanced candidate env.order).rememberHistory ⟨value.header, value.body, qc⟩
  let (round, actions) := next.round.start
  return ({ next with round := round }, .committed value.header.height commitment, actions)

/-! ### State sync -/

/-- Verify and apply one block of a response to a copy of the chain. -/
def syncBlock (n : ConsensusNode Kel) (acc : LedgerChain × List Emit) (block : FinalizedBlock) :
    Except ConsensusError (LedgerChain × List Emit) := do
  failIf (acc.1.height.toNat + 1 = UInt64.size) .tooLarge
  let expected := acc.1.height + 1
  failIf (block.header.height ≠ expected) (.catchupOutOfOrder expected block.header.height)
  let (candidate, commitment) ← (acc.1.applyFinalizedBlockWithVerifier block.header block.body
    block.qc n.validators n.oracle n.claimVerifier).mapError .execution
  return (candidate, acc.2 ++ [.committed block.header.height commitment])

/-- The chain a response leads to, what to report, and the blocks to keep; a snapshot replaces the
kept history. -/
def verifyStateSync (n : ConsensusNode Kel) (response : StateSyncResponse) :
    Except ConsensusError (LedgerChain × List Emit × List FinalizedBlock × Bool) :=
  match response.payload with
  | .wrongNetwork => .error .stateSyncWrongNetwork
  | .unavailable earliestHeight tipHeight => .error (.stateSyncUnavailable earliestHeight tipHeight)
  | .blocks blocks => do
    let (candidate, emits) ← blocks.foldlM n.syncBlock (n.chain, [])
    return (candidate, emits, blocks, false)
  | .snapshot snapshot blocks => do
    failIf (snapshot.height ≤ n.finalizedHeight)
      (.snapshotNotNewer n.finalizedHeight snapshot.height)
    let chain ← snapshot.intoChainWithVerifier response.networkId n.validators n.oracle
      n.chain.state.shieldedGenesisCommitment n.claimVerifier
    let (candidate, emits) ← blocks.foldlM n.syncBlock
      (chain, [.committed snapshot.height chain.state.commitment])
    return (candidate, emits, blocks, true)

omit [Primitives] [KelOps Kel] in
/-- The node on the tip a response leads to, its buffered messages dropped. -/
def synced (n : ConsensusNode Kel) (candidate : LedgerChain) (retained : List FinalizedBlock)
    (replaceHistory : Bool) (order : IterationOrder (UInt32 × ProposalInfo)) : ConsensusNode Kel :=
  let cleared := if replaceHistory then { n with history := [] } else n
  { (retained.foldl rememberHistory cleared).advanced candidate order with pending := [] }

/-- Install what a response leads to, all or nothing. -/
def applyStateSyncInternal (n : ConsensusNode Kel) (env : Environment)
    (response : StateSyncResponse) (startRound persisted : Bool) :
    Except ConsensusError (ConsensusNode Kel × List Emit × List Action) := do
  failIf (response.networkId ≠ n.chain.state.networkId) .stateSyncWrongNetwork
  let (candidate, emits, retained, replaceHistory) ← n.verifyStateSync response
  if candidate.height = n.finalizedHeight then return (n, [], [])
  else do
    (if persisted then n.persist env else .ok () : Except ConsensusError Unit)
    let next := n.synced candidate retained replaceHistory env.order
    if startRound then
      let (round, actions) := next.round.start
      return ({ next with round := round }, emits, actions)
    else return (next, emits, [])

def applyStateSync (n : ConsensusNode Kel) (env : Environment) (response : StateSyncResponse) :
    Except ConsensusError (ConsensusNode Kel × List Emit × List Action) :=
  n.applyStateSyncInternal env response true true

def catchUp (n : ConsensusNode Kel) (env : Environment) (blocks : List FinalizedBlock) :
    Except ConsensusError (ConsensusNode Kel × List Emit × List Action) :=
  n.applyStateSync env (.blocks n.chain.state.networkId blocks)

omit [Primitives] in
/-- A timer fired; one for a finalized height is ignored. -/
def onTimeout (n : ConsensusNode Kel) (height : UInt64) (round : UInt32) (step : Step) :
    ConsensusNode Kel × List Action :=
  if height = n.currentHeight then n.tell (.timeout step round) else (n, [])

end ConsensusNode

end Mininet

import Mininet.Consensus.Node

/-!
# A node at work

Carrying out an action can make the driver ask for more, and committing starts the next height and
replays messages from within, so a call can go arbitrarily deep, or on forever. A `Machine` is a call
under way: the queue of the innermost `drive`, and the commits that wait for it. One step of it
carries out one action or replays one message. Between calls the queue is empty and nothing waits.
-/

namespace Mininet

open Codec Fallible List

/-- A `commit` that waits for the calls it made: for those of the new height's start, or for those of
a replayed message. -/
inductive Frame where
  | takePending
  | replay (messages : List ConsensusMessage)

/-- A node with the call it is in, and everything emitted so far. -/
structure Machine (Kel : Type) where
  node : ConsensusNode Kel
  /-- What is left of the queue of the innermost `drive`. A `drive` that waits for a commit has none
  left: it clears its queue when the commit returns. -/
  work : List Action
  stack : List Frame
  emits : List Emit

/-- The calls of a host, after the first one. -/
inductive Call where
  | onMessage (message : ConsensusMessage)
  | onTimeout (height : UInt64) (round : UInt32) (step : Step)
  | catchUp (blocks : List FinalizedBlock)
  | applyStateSync (response : StateSyncResponse)

namespace Machine

variable {Kel : Type}

/-- The last call has returned. -/
def idle (m : Machine Kel) : Bool := m.work.isEmpty && m.stack.isEmpty

/-- The call has returned an error: whatever waited for it is gone. -/
def abort (m : Machine Kel) : Machine Kel := { m with work := [], stack := [] }

variable [Primitives] [KelOps Kel]

omit [Primitives] in
/-- Sign a vote, broadcast it and let the driver count it. -/
def cast (m : Machine Kel) (kind : VoteKind) (round : UInt32) (target : Hash)
    (work : List Action) : Machine Kel :=
  let vote := signVote kind m.node.currentHeight round target m.node.root m.node.device
  let (node, actions) := m.node.tell (.vote vote)
  { m with
    node := node
    work := work ++ actions
    emits := m.emits ++ [.broadcast (.vote vote)] }

/-- Carry out one action, with the rest of the queue behind it. -/
def perform (m : Machine Kel) (env : Environment) (work : List Action) :
    Action → Except ConsensusError (Machine Kel)
  | .propose round reuse validRound => do
    let proposal ← m.node.buildProposal env round reuse validRound
    let hash := proposal.header.hash
    let values := m.node.values.insertIfNew hash proposal
    let (node, actions) := { m.node with values := values }.tell
      (.proposal round hash validRound true)
    return { m with
      node := node
      work := work ++ actions
      emits := m.emits ++ [.broadcast (.proposal proposal)] }
  | .signPrevote round target => .ok (m.cast .prevote round target work)
  | .signPrecommit round target => .ok (m.cast .precommit round target work)
  | .scheduleTimeout step round => .ok { m with
      work := work
      emits := m.emits ++ [.scheduleTimeout m.node.currentHeight round step] }
  | .equivocation evidence => .ok { m with
      work := work
      emits := m.emits ++ [.equivocation evidence] }
  | .decided qc => do
    let (node, emit, actions) ← m.node.commit env qc
    return { m with
      node := node
      work := actions
      stack := .takePending :: m.stack
      emits := m.emits ++ [emit] }

/-- One step of the call. On an error the node is as it was before the step. -/
def step (m : Machine Kel) (env : Environment) : Except ConsensusError (Machine Kel) :=
  match m.work with
  | action :: work => m.perform env work action
  | [] =>
    match m.stack with
    | [] => .ok m
    | .takePending :: stack => .ok { m with
        node := { m.node with pending := [] }
        stack := .replay m.node.pending :: stack }
    | .replay [] :: stack => .ok { m with stack := stack }
    | .replay (message :: messages) :: stack =>
      let (node, actions) := m.node.ingest message
      .ok { m with node := node, work := actions, stack := .replay messages :: stack }

/-- Begin a call. -/
def call (m : Machine Kel) (env : Environment) : Call → Except ConsensusError (Machine Kel)
  | .onMessage message =>
    let (node, actions) := m.node.ingest message
    .ok { m with node := node, work := actions }
  | .onTimeout height round step =>
    let (node, actions) := m.node.onTimeout height round step
    .ok { m with node := node, work := actions }
  | .catchUp blocks => do
    let (node, emits, actions) ← m.node.catchUp env blocks
    return { m with node := node, work := actions, emits := m.emits ++ emits }
  | .applyStateSync response => do
    let (node, emits, actions) ← m.node.applyStateSync env response
    return { m with node := node, work := actions, emits := m.emits ++ emits }

/-! ### Runs -/

/-- What moves a machine: its next step, or a call of the host. -/
inductive Input where
  | step (env : Environment)
  | call (env : Environment) (c : Call)

/-- A machine moves on an input. A call is made when the last one has returned; an error ends the
call it happens in. -/
inductive Moves : Machine Kel → Input → Machine Kel → Prop
  | step {m m' : Machine Kel} {env : Environment} (hbusy : m.idle = false) (h : m.step env = .ok m') :
      Moves m (.step env) m'
  | fail {m : Machine Kel} {env : Environment} {e : ConsensusError} (hbusy : m.idle = false)
      (h : m.step env = .error e) : Moves m (.step env) m.abort
  | call {m m' : Machine Kel} {env : Environment} {c : Call} (hidle : m.idle = true)
      (h : m.call env c = .ok m') : Moves m (.call env c) m'
  | refuse {m : Machine Kel} {env : Environment} {c : Call} {e : ConsensusError} (hidle : m.idle = true)
      (h : m.call env c = .error e) : Moves m (.call env c) m

/-- The move on an input, if it is the machine's turn or the host's. -/
def move (m : Machine Kel) : Input → Option (Machine Kel)
  | .step env   => if m.idle then none else some ((m.step env).toOption.getD m.abort)
  | .call env c => if m.idle then some ((m.call env c).toOption.getD m) else none

variable {m m' : Machine Kel} {allowed P : Machine Kel → Input → Prop}

lemma moves_of_move {input : Input} (h : m.move input = some m') : Moves m input m' := by
  cases input with
  | step env =>
    cases hidle : m.idle with
    | true => simp [move, hidle] at h
    | false =>
      cases hstep : m.step env with
      | ok next =>
        obtain rfl : next = m' := by simpa [move, hidle, hstep, Except.toOption] using h
        exact .step hidle hstep
      | error e =>
        obtain rfl : m.abort = m' := by simpa [move, hidle, hstep, Except.toOption] using h
        exact .fail hidle hstep
  | call env c =>
    cases hidle : m.idle with
    | false => simp [move, hidle] at h
    | true =>
      cases hcall : m.call env c with
      | ok next =>
        obtain rfl : next = m' := by simpa [move, hidle, hcall, Except.toOption] using h
        exact .call hidle hcall
      | error e =>
        obtain rfl : m = m' := by simpa [move, hidle, hcall, Except.toOption] using h
        exact .refuse hidle hcall

/-- Any number of moves, each on an input that is allowed. -/
inductive Runs (allowed : Machine Kel → Input → Prop) : Machine Kel → Machine Kel → Prop
  | refl (m : Machine Kel) : Runs allowed m m
  | tail {m m' m'' : Machine Kel} {input : Input} (hruns : Runs allowed m m')
      (hallowed : allowed m' input) (hmoves : Moves m' input m'') : Runs allowed m m''

/-- What every move keeps, a run keeps. -/
lemma Runs.invariant {P : Machine Kel → Prop}
    (hstep : ∀ m input m', P m → allowed m input → Moves m input m' → P m') (h : Runs allowed m m')
    (hm : P m) : P m' := by
  induction h with
  | refl => exact hm
  | tail _ hallowed hmoves ih => exact hstep _ _ _ ih hallowed hmoves

lemma Runs.trans {m'' : Machine Kel} (h : Runs allowed m m') (h' : Runs allowed m' m'') :
    Runs allowed m m'' := by
  induction h' with
  | refl => exact h
  | tail _ hallowed hmoves ih => exact ih.tail hallowed hmoves

/-- The moves on a list of inputs, all of them allowed. -/
def replay (allowed : Machine Kel → Input → Bool) :
    List Input → Machine Kel → Option (Machine Kel)
  | [], m              => some m
  | input :: inputs, m =>
    if allowed m input then (m.move input).bind (replay allowed inputs) else none

lemma runs_of_replay {allowed : Machine Kel → Input → Bool}
    (hallowed : ∀ m input, allowed m input = true → P m input) {inputs : List Input}
    (h : replay allowed inputs m = some m') : Runs P m m' := by
  induction inputs generalizing m with
  | nil =>
    cases h
    exact .refl _
  | cons input inputs ih =>
    rw [replay] at h
    split_ifs at h with hinput
    obtain ⟨mid, hmove, hrest⟩ := Option.bind_eq_some_iff.mp h
    exact Runs.trans (.tail (.refl m) (hallowed m input hinput) (moves_of_move hmove)) (ih hrest)

/-- Evaluating a run: it goes through, and its end passes a test. -/
lemma exists_runs_of_replay {allowed : Machine Kel → Input → Bool} {P : Machine Kel → Input → Prop}
    (hallowed : ∀ m input, allowed m input = true → P m input) (inputs : List Input)
    {m : Machine Kel} (Q : Machine Kel → Bool) (h : (replay allowed inputs m).any Q = true) :
    ∃ m', Runs P m m' ∧ Q m' = true := by
  obtain ⟨m', hreplay, hQ⟩ := (Option.any_eq_true ..).mp h
  exact ⟨m', runs_of_replay hallowed hreplay, hQ⟩

end Machine

namespace ConsensusNode

variable {Kel : Type}

/-- A node before its start: its driver is new, and nothing was received. -/
structure Fresh (n : ConsensusNode Kel) : Prop where
  round : ∃ order, n.round = .new n.currentHeight n.validators n.root order
  values : n.values = ∅
  pending : n.pending = []

/-- The first call: enter round 0 of the current height. -/
def start (n : ConsensusNode Kel) : Machine Kel :=
  let (round, actions) := n.round.start
  { node := { n with round := round }, work := actions, stack := [], emits := [] }

end ConsensusNode

/-! ### What the pieces of a call do -/

namespace ConsensusNode

section

variable {Kel : Type}

/-- What never changes after the node is set up. -/
structure SameSetup (n n' : ConsensusNode Kel) : Prop where
  root : n'.root = n.root
  device : n'.device = n.device
  validators : n'.validators = n.validators
  oracle : n'.oracle = n.oracle
  archive : n'.archive = n.archive
  claimVerifier : n'.claimVerifier = n.claimVerifier

/-- The node has started the height after its tip. -/
structure Restarts (n n' : ConsensusNode Kel) (actions : List Action) : Prop where
  setup : n.SameSetup n'
  values : n'.values = ∅
  started : ∃ order, (n'.round, actions) =
    (Round.new n'.currentHeight n.validators n.root order).start

lemma foldl_rememberHistory_eq (blocks : List FinalizedBlock) (n : ConsensusNode Kel) :
    ∃ history, blocks.foldl rememberHistory n = { n with history := history } := by
  induction blocks generalizing n with
  | nil => exact ⟨n.history, rfl⟩
  | cons block blocks ih =>
    obtain ⟨history, h⟩ := ih (n.rememberHistory block)
    exact ⟨history, by rw [foldl_cons, h, rememberHistory]⟩

lemma synced_eq (n : ConsensusNode Kel) (candidate : LedgerChain)
    (retained : List FinalizedBlock) (replaceHistory : Bool)
    (order : IterationOrder (UInt32 × ProposalInfo)) :
    ∃ history, n.synced candidate retained replaceHistory order =
      { n.advanced candidate order with history := history, pending := [] } := by
  cases replaceHistory with
  | true =>
    obtain ⟨history, h⟩ := foldl_rememberHistory_eq retained { n with history := [] }
    exact ⟨history, by simp only [synced, if_true, h, advanced]⟩
  | false =>
    obtain ⟨history, h⟩ := foldl_rememberHistory_eq retained n
    exact ⟨history, by simp only [synced, Bool.false_eq_true, if_false, h, advanced]⟩

lemma restarts_advanced (n : ConsensusNode Kel) (candidate : LedgerChain)
    (order : IterationOrder (UInt32 × ProposalInfo)) (history : List FinalizedBlock)
    (pending : List ConsensusMessage) :
    let next := { n.advanced candidate order with history := history, pending := pending }
    n.Restarts { next with round := next.round.start.1 } next.round.start.2 :=
  ⟨⟨rfl, rfl, rfl, rfl, rfl, rfl⟩, rfl, order, rfl⟩

lemma fresh_new (config : NodeConfig Kel) (order : IterationOrder (UInt32 × ProposalInfo)) :
    (new config order).Fresh := by
  refine ⟨⟨order, ?_⟩, rfl, rfl⟩
  simp only [new, currentHeight]

end

variable {Kel : Type} [Primitives] [KelOps Kel]

/-- The ways in which a message is taken in. -/
inductive Ingests (n : ConsensusNode Kel) : ConsensusNode Kel × List Action → Prop
  | ignored (pending : List ConsensusMessage) : Ingests n ({ n with pending := pending }, [])
  | proposal (p : Proposal) : Ingests n
      ({ n with values := if (n.validateProposal p).2 then
          n.values.insertIfNew (n.validateProposal p).1 p else n.values }.tell
        (.proposal p.round (n.validateProposal p).1 p.validRound (n.validateProposal p).2))
  | vote (v : Vote) : Ingests n (n.tell (.vote v))

variable {n : ConsensusNode Kel} {acc acc' : LedgerChain × List Emit} {response : StateSyncResponse}
  {n' : ConsensusNode Kel} {actions : List Action} {env : Environment} {emits : List Emit}

lemma ingests_ingest (n : ConsensusNode Kel) (msg : ConsensusMessage) :
    n.Ingests (n.ingest msg) := by
  unfold ingest
  dsimp only
  split_ifs with hlater hstale
  · exact .ignored _
  · exact .ignored n.pending
  · cases msg with
    | proposal p =>
      by_cases hauthentic : n.proposalIsAuthentic p = true
      · simp only [hauthentic, not_true_eq_false, if_false]
        exact .proposal p
      · simp only [hauthentic]
        exact .ignored n.pending
    | vote v => exact .vote v

lemma commit_ok {qc : QuorumCertificate}
    {emit : Emit} (h : n.commit env qc = .ok (n', emit, actions)) :
    ∃ value commitment, n.values[qc.blockHash]? = some value ∧
      n.chain.applyFinalizedBlockWithVerifier value.header value.body qc n.validators n.oracle
        n.claimVerifier = .ok (n'.chain, commitment) ∧
      n.Restarts n' actions ∧ emit = .committed value.header.height commitment := by
  obtain ⟨value, hvalue, h⟩ := bind_ok.mp h
  obtain ⟨⟨candidate, commitment⟩, happly, h⟩ := bind_ok.mp h
  obtain ⟨_, -, hresult⟩ := bind_ok.mp h
  cases hresult
  exact ⟨value, commitment, okOr_ok.mp hvalue, mapError_ok.mp happly,
    n.restarts_advanced candidate env.order _ n.pending, rfl⟩

/-! ### State sync only moves forward -/

/-- A block of a response is the successor of the tip, which has one. -/
lemma syncBlock_ok {block : FinalizedBlock} (h : n.syncBlock acc block = .ok acc') :
    acc'.1.height.toNat = acc.1.height.toNat + 1 ∧ acc'.1.height = block.header.height ∧
      ∃ commitment, acc'.2 = acc.2 ++ [.committed block.header.height commitment] := by
  obtain ⟨hroom, h⟩ := failIf_bind_ok.mp h
  obtain ⟨-, h⟩ := failIf_bind_ok.mp h
  obtain ⟨⟨candidate, commitment⟩, happly, hresult⟩ := bind_ok.mp h
  obtain ⟨hcertified, -, -, hheight, -⟩ :=
    LedgerChain.applyFinalizedBlockWithVerifier_ok (mapError_ok.mp happly)
  cases hresult
  refine ⟨?_, hheight, commitment, rfl⟩
  have hlt := acc.1.height.toNat_lt
  have hsize : UInt64.size = 2 ^ 64 := rfl
  rw [hheight, hcertified.height, UInt64.toNat_add]
  exact Nat.mod_eq_of_lt (by simp only [UInt64.reduceToNat]; omega)

lemma foldlM_syncBlock {blocks : List FinalizedBlock}
    (h : blocks.foldlM n.syncBlock acc = .ok acc') :
    acc'.1.height.toNat = acc.1.height.toNat + blocks.length ∧
      blocks.getLast?.elim acc.1.height (fun b => b.header.height) = acc'.1.height ∧
      ∃ heights : List (UInt64 × Hash),
        acc'.2 = acc.2 ++ heights.map fun e => .committed e.1 e.2 := by
  induction blocks using List.reverseRecOn generalizing acc' with
  | nil =>
    cases h
    exact ⟨rfl, rfl, [], by simp⟩
  | append_singleton blocks block ih =>
    rw [foldlM_append] at h
    obtain ⟨mid, hmid, h⟩ := bind_ok.mp h
    rw [foldlM_cons] at h
    obtain ⟨last, hlast, hresult⟩ := bind_ok.mp h
    cases hresult
    obtain ⟨hheight, -, heights, hemits⟩ := ih hmid
    obtain ⟨hstep, hblock, commitment, hemit⟩ := syncBlock_ok hlast
    refine ⟨?_, by simp [hblock], heights ++ [(block.header.height, commitment)], ?_⟩
    · rw [hstep, hheight, length_append, length_singleton]
      omega
    · rw [hemit, hemits]
      simp

lemma height_intoChain {snapshot : ConsensusSnapshot} {networkId shieldedGenesis : Hash}
    {validators : ValidatorSet} {oracle : ValidatorOracle Kel} {verifier : Option ClaimVerifier}
    {chain : LedgerChain} (h : snapshot.intoChainWithVerifier networkId validators oracle
      shieldedGenesis verifier = .ok chain) : chain.height = snapshot.height := by
  obtain ⟨-, h⟩ := failIf_bind_ok.mp (mapError_ok.mp h)
  simp only [↓failIf_bind_ok, bind_ok] at h
  obtain ⟨-, _, -, _, -, _, -, _, -, -, -, hresult⟩ := h
  cases hresult
  rfl

/-- A verified response leads nowhere, or to a later height, the one it was for. -/
lemma verifyStateSync_ok {candidate : LedgerChain} {retained : List FinalizedBlock}
    {replaceHistory : Bool}
    (h : n.verifyStateSync response = .ok (candidate, emits, retained, replaceHistory)) :
    (candidate.height = n.chain.height ∨
      (n.chain.height.toNat < candidate.height.toNat ∧ response.reaches candidate.height)) ∧
      ∃ heights : List (UInt64 × Hash), emits = heights.map fun e => .committed e.1 e.2 := by
  unfold verifyStateSync at h
  split at h
  next => cases h
  next => cases h
  next blocks hpayload =>
    obtain ⟨⟨chain, reported⟩, hfold, hresult⟩ := bind_ok.mp h
    cases hresult
    obtain ⟨hheight, hlast, heights, hemits⟩ := foldlM_syncBlock hfold
    refine ⟨?_, heights, by simpa using hemits⟩
    dsimp only at hheight hlast
    cases hblocks : retained.getLast? with
    | none =>
      rw [hblocks] at hlast
      exact .inl hlast.symm
    | some block =>
      rw [hblocks] at hlast
      have hpos : 0 < retained.length :=
        length_pos_iff.mpr fun hnil => by simp [hnil] at hblocks
      refine .inr ⟨by omega, ?_⟩
      simpa [StateSyncResponse.reaches, StateSyncResponse.targetHeight, hpayload, hblocks] using hlast
  next snapshot blocks hpayload =>
    obtain ⟨hnewer, h⟩ := failIf_bind_ok.mp h
    obtain ⟨chain, hchain, h⟩ := bind_ok.mp h
    obtain ⟨⟨chain', reported⟩, hfold, hresult⟩ := bind_ok.mp h
    cases hresult
    obtain ⟨hheight, hlast, heights, hemits⟩ := foldlM_syncBlock hfold
    dsimp only at hheight hlast
    rw [height_intoChain hchain] at hheight hlast
    have hlt : n.chain.height.toNat < snapshot.height.toNat := by
      rw [finalizedHeight, UInt64.le_iff_toNat_le] at hnewer
      omega
    refine ⟨.inr ⟨by omega, ?_⟩, (snapshot.height, chain.state.commitment) :: heights, ?_⟩
    · simpa [StateSyncResponse.reaches, StateSyncResponse.targetHeight, hpayload] using hlast
    · simpa using hemits

/-- State sync changes nothing, or starts the height after a later tip. -/
lemma applyStateSync_ok (h : n.applyStateSync env response = .ok (n', emits, actions)) :
    (n' = n ∧ emits = [] ∧ actions = []) ∨
      (n.Restarts n' actions ∧ n.chain.height.toNat < n'.chain.height.toNat ∧
        response.reaches n'.chain.height ∧
        ∃ heights : List (UInt64 × Hash), emits = heights.map fun e => .committed e.1 e.2) := by
  obtain ⟨-, h⟩ := failIf_bind_ok.mp h
  obtain ⟨⟨candidate, reported, retained, replaceHistory⟩, hverify, h⟩ := bind_ok.mp h
  obtain ⟨hheight, heights, rfl⟩ := verifyStateSync_ok hverify
  dsimp only at h
  split at h
  next =>
    cases h
    exact .inl ⟨rfl, rfl, rfl⟩
  next hmoved =>
    obtain ⟨_, -, hresult⟩ := bind_ok.mp h
    obtain ⟨hlt, hreaches⟩ := hheight.resolve_left hmoved
    obtain ⟨history, hsynced⟩ := n.synced_eq candidate retained replaceHistory env.order
    rw [hsynced] at hresult
    cases hresult
    exact .inr ⟨n.restarts_advanced candidate env.order history [], hlt, hreaches, heights, rfl⟩

end ConsensusNode

/-! ### A sample node -/

/-- An environment in which bodies are empty and nothing fails. -/
def sampleEnvironment : Environment where
  bodySource _ := {}
  archive := none
  order := .given

/-- The first of the sample validators, at genesis. -/
def sampleNode : ConsensusNode SampleKel :=
  .new {
    root := ⟨"a"⟩
    device := ⟨⟨"a-device"⟩, fun _ => []⟩
    validators := .sample
    oracle := sampleOracle } sampleEnvironment.order

end Mininet

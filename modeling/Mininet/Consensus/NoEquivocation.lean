import Mininet.Consensus.Machine
import Mininet.Consensus.RoundInvariant

/-!
# A node signs once

Within a height the driver asks for at most one vote per round and phase (`VotesOnce`), and every
vote the node signs answers a request of the current driver: the queue of an earlier one is dropped
when its height ends. Heights differ as long as the height does not wrap.
-/

namespace Mininet

open Fallible List

/-! ### Votes on the way out -/

def Emit.vote? : Emit → Option Vote
  | .broadcast (.vote v) => some v
  | _                    => none

/-- What a validator may sign once. -/
def Vote.slot (v : Vote) : UInt64 × UInt32 × VoteKind := (v.height, v.round, v.kind)

/-- The request a vote answers. -/
def Vote.action (v : Vote) : Action :=
  match v.kind with
  | .prevote   => .signPrevote v.round v.blockHash
  | .precommit => .signPrecommit v.round v.blockHash

@[simp] lemma Vote.slot_action (v : Vote) : v.action.slot = some (v.kind, v.round) := by
  unfold Vote.action
  cases hk : v.kind <;> rfl

lemma Round.VotesOnce.sublist {s : Round} {log log' : List Action} (h : s.VotesOnce log)
    (hsub : log'.Sublist log) : s.VotesOnce log' := by
  have hslots : (log'.filterMap Action.slot).Sublist (log.filterMap Action.slot) :=
    hsub.filterMap _
  exact ⟨h.started_zero, h.started_le, h.voted_le, h.voted_open, h.slots_nodup.sublist hslots,
    fun kind r hr => h.slots_voted kind r (hslots.subset hr)⟩

/-- The last height a machine integer can express. -/
def maxHeight : UInt64 := 0xFFFFFFFFFFFFFFFF

lemma toNat_succ_of_ne {h : UInt64} (hne : h ≠ maxHeight) : (h + 1).toNat = h.toNat + 1 := by
  have hlt := h.toNat_lt
  have hne : h.toNat ≠ 2 ^ 64 - 1 := fun heq => hne (UInt64.toNat_inj.mp heq)
  rw [UInt64.toNat_add]
  exact Nat.mod_eq_of_lt (by simp only [UInt64.reduceToNat]; omega)

namespace Machine

variable {Kel : Type}

/-- The votes broadcast so far. -/
def votes (m : Machine Kel) : List Vote := m.emits.filterMap Emit.vote?

/-- The requests of a height that were answered. -/
def castAt (m : Machine Kel) (height : UInt64) : List Action :=
  (m.votes.filter fun v => v.height = height).map Vote.action

/-- An input on which the height would wrap: a decision at the last height, or a response that
reaches it. -/
def overflows (m : Machine Kel) : Input → Bool
  | .step _ =>
    match m.work with
    | .decided _ :: _ => decide (m.node.currentHeight = maxHeight)
    | _               => false
  | .call _ (.catchUp blocks) =>
    (StateSyncResponse.blocks m.node.chain.state.networkId blocks).reaches maxHeight
  | .call _ (.applyStateSync response) => response.reaches maxHeight
  | .call _ _ => false

/-- No vote slot was used twice, and what was signed or is still asked for at the current height is
what its driver has asked for. -/
structure Once (m : Machine Kel) : Prop where
  votes_le : ∀ v ∈ m.votes, v.height ≤ m.node.currentHeight
  slots_nodup : (m.votes.map Vote.slot).Nodup
  once : m.node.round.VotesOnce (m.castAt m.node.currentHeight ++ m.work)

variable {m m' : Machine Kel}

/-! ### Steps within a height -/

/-- A step that signs nothing and asks for nothing new. -/
lemma Once.quiet (h : m.Once) (hvotes : m'.votes = m.votes)
    (hheight : m'.node.currentHeight = m.node.currentHeight)
    (hround : m'.node.round = m.node.round) (hwork : m'.work.Sublist m.work) : m'.Once where
  votes_le := by
    rw [hvotes, hheight]
    exact h.votes_le
  slots_nodup := by
    rw [hvotes]
    exact h.slots_nodup
  once := by
    rw [hround, castAt, hvotes, hheight]
    exact h.once.sublist ((List.Sublist.refl _).append hwork)

/-- A step that signs nothing, in which the driver hears something. -/
lemma Once.hears [KelOps Kel] (h : m.Once) (e : Round.Event) (work : List Action)
    (hvotes : m'.votes = m.votes) (hheight : m'.node.currentHeight = m.node.currentHeight)
    (hround : m'.node.round = (m.node.round.handle m.node.oracle e).1)
    (hwork : m'.work = work ++ (m.node.round.handle m.node.oracle e).2)
    (hrest : work.Sublist m.work) : m'.Once where
  votes_le := by
    rw [hvotes, hheight]
    exact h.votes_le
  slots_nodup := by
    rw [hvotes]
    exact h.slots_nodup
  once := by
    rw [hround, hwork, castAt, hvotes, hheight, ← append_assoc]
    exact Round.handle_invariant _ e Round.VotesOnce.fires Round.VotesOnce.hears
      (h.once.sublist ((List.Sublist.refl _).append hrest))

/-- Answering the next request, which is for a slot that was not used. -/
lemma Once.cast [KelOps Kel] (h : m.Once) {kind : VoteKind} {round : UInt32} {target : Hash}
    {a : Action} {work : List Action} (hwork : m.work = a :: work)
    (ha : (signVote kind m.node.currentHeight round target m.node.root m.node.device).action = a) :
    (m.cast kind round target work).Once := by
  set v := signVote kind m.node.currentHeight round target m.node.root m.node.device with hv
  have hvotes : (m.cast kind round target work).votes = m.votes ++ [v] := by
    simp [votes, Machine.cast, filterMap_append, Emit.vote?, ← hv]
  have hheight : (m.cast kind round target work).node.currentHeight = m.node.currentHeight := rfl
  have hcast : (m.cast kind round target work).castAt m.node.currentHeight =
      m.castAt m.node.currentHeight ++ [a] := by
    rw [castAt, hvotes, filter_append, map_append, castAt]
    simp [hv, signVote, ← ha]
  have honce := h.once
  rw [hwork] at honce
  have hnew : v.slot ∉ m.votes.map Vote.slot := by
    intro hmem
    obtain ⟨w, hw, hslot⟩ := mem_map.mp hmem
    have hwheight : w.height = m.node.currentHeight := congrArg Prod.fst hslot
    have hwslot : (w.kind, w.round) = (kind, round) := by
      have hround : w.round = round := congrArg (fun s => s.2.1) hslot
      have hkind : w.kind = kind := congrArg (fun s => s.2.2) hslot
      rw [hround, hkind]
    have hnodup := honce.slots_nodup
    rw [filterMap_append, filterMap_cons_some (b := (kind, round)) (by
      rw [← ha, Vote.slot_action]; rfl)] at hnodup
    refine (nodup_append.mp hnodup).2.2 (kind, round) ?_ (kind, round) (by simp) rfl
    refine mem_filterMap.mpr ⟨w.action, mem_map_of_mem ?_, by rw [Vote.slot_action, hwslot]⟩
    exact mem_filter.mpr ⟨hw, by simpa using hwheight⟩
  constructor
  case votes_le =>
    rw [hvotes, hheight]
    intro w hw
    rcases mem_append.mp hw with hw | hw
    · exact h.votes_le w hw
    · rw [mem_singleton.mp hw]
      exact UInt64.le_refl _
  case slots_nodup =>
    rw [hvotes, map_append]
    exact h.slots_nodup.append (nodup_singleton _) (by simpa using hnew)
  case once =>
    have hlog : m.castAt m.node.currentHeight ++ [a] ++
        (work ++ (m.node.round.handle m.node.oracle (.vote v)).2) =
        m.castAt m.node.currentHeight ++ a :: work ++
          (m.node.round.handle m.node.oracle (.vote v)).2 := by simp
    change (m.node.round.handle m.node.oracle (.vote v)).1.VotesOnce
      ((m.cast kind round target work).castAt m.node.currentHeight ++
        (work ++ (m.node.round.handle m.node.oracle (.vote v)).2))
    rw [hcast, hlog]
    exact Round.handle_invariant _ _ Round.VotesOnce.fires Round.VotesOnce.hears honce

/-! ### A new height -/

lemma votesOnce_start (height : UInt64) (validators : ValidatorSet) (root : Did)
    (order : IterationOrder (UInt32 × ProposalInfo)) :
    (Round.new height validators root order).start.1.VotesOnce
      (Round.new height validators root order).start.2 :=
  Round.start_invariant rfl (by simp [Round.new]) Round.VotesOnce.fires
    (Round.votesOnce_new height validators root order)

lemma Once.restart (h : m.Once) {actions : List Action}
    (hrestarts : m.node.Restarts m'.node actions) (hwork : m'.work = actions)
    (hvotes : m'.votes = m.votes)
    (hheight : m.node.currentHeight.toNat < m'.node.currentHeight.toNat) : m'.Once where
  votes_le v hv := by
    rw [hvotes] at hv
    have hle := h.votes_le v hv
    rw [UInt64.le_iff_toNat_le] at hle ⊢
    omega
  slots_nodup := by
    rw [hvotes]
    exact h.slots_nodup
  once := by
    have hnone : m'.castAt m'.node.currentHeight = [] := by
      rw [castAt, hvotes, map_eq_nil_iff, filter_eq_nil_iff]
      intro v hv heq
      have hle := h.votes_le v hv
      rw [UInt64.le_iff_toNat_le, of_decide_eq_true heq] at hle
      omega
    obtain ⟨order, hstarted⟩ := hrestarts.started
    rw [hnone, hwork, nil_append]
    have hstart := votesOnce_start m'.node.currentHeight m.node.validators m.node.root order
    rw [← hstarted] at hstart
    exact hstart

/-! ### Moves -/

section Moves

variable [Primitives] [KelOps Kel]

/-- What a move keeps: no slot is used twice, and the height does not fall. -/
structure KeepsOnce (m m' : Machine Kel) : Prop where
  once : m'.Once
  height_le : m.node.currentHeight.toNat ≤ m'.node.currentHeight.toNat

variable {env : Environment}

lemma Once.perform (h : m.Once) {a : Action} {work : List Action} (hwork : m.work = a :: work)
    (hsafe : m.overflows (.step env) = false) (hperform : m.perform env work a = .ok m') :
    KeepsOnce m m' := by
  have hrest : work.Sublist m.work := hwork ▸ sublist_cons_self a work
  cases a with
  | propose round reuse validRound =>
    obtain ⟨proposal, -, hresult⟩ := bind_ok.mp hperform
    cases hresult
    exact ⟨h.hears (.proposal round proposal.header.hash validRound true) work
      (by simp [votes, Emit.vote?]) rfl rfl rfl hrest, le_rfl⟩
  | signPrevote round target =>
    cases hperform
    exact ⟨h.cast hwork rfl, le_rfl⟩
  | signPrecommit round target =>
    cases hperform
    exact ⟨h.cast hwork rfl, le_rfl⟩
  | scheduleTimeout step round =>
    cases hperform
    exact ⟨h.quiet (by simp [votes, Emit.vote?]) rfl rfl hrest, le_rfl⟩
  | equivocation evidence =>
    cases hperform
    exact ⟨h.quiet (by simp [votes, Emit.vote?]) rfl rfl hrest, le_rfl⟩
  | decided qc =>
    obtain ⟨⟨node, emit, actions⟩, hcommit, hresult⟩ := bind_ok.mp hperform
    cases hresult
    obtain ⟨value, commitment, -, happly, hrestarts, rfl⟩ := ConsensusNode.commit_ok hcommit
    obtain ⟨hcertified, -, -, hheight, -⟩ :=
      LedgerChain.applyFinalizedBlockWithVerifier_ok happly
    have hne : m.node.currentHeight ≠ maxHeight := by
      simpa [overflows, hwork] using hsafe
    have hnext : node.currentHeight.toNat = m.node.currentHeight.toNat + 1 := by
      rw [ConsensusNode.currentHeight, hheight, hcertified.height]
      exact toNat_succ_of_ne hne
    exact ⟨h.restart hrestarts rfl (by simp [votes, Emit.vote?]) (by simp only; omega),
      by simp only; omega⟩

lemma Once.ingest (h : m.Once) (message : ConsensusMessage) (stack : List Frame) :
    KeepsOnce m { m with
      node := (m.node.ingest message).1
      work := (m.node.ingest message).2
      stack := stack } := by
  have hingests := m.node.ingests_ingest message
  generalize m.node.ingest message = result at hingests ⊢
  cases hingests with
  | ignored pending => exact ⟨h.quiet rfl rfl rfl (nil_sublist _), le_rfl⟩
  | proposal p =>
    exact ⟨h.hears (.proposal p.round (m.node.validateProposal p).1 p.validRound
      (m.node.validateProposal p).2) [] rfl rfl rfl rfl (nil_sublist _), le_rfl⟩
  | vote v => exact ⟨h.hears (.vote v) [] rfl rfl rfl rfl (nil_sublist _), le_rfl⟩

lemma Once.step (h : m.Once) (hsafe : m.overflows (.step env) = false) (hstep : m.step env = .ok m') :
    KeepsOnce m m' := by
  unfold Machine.step at hstep
  split at hstep
  next a work hwork => exact h.perform hwork hsafe hstep
  next =>
    split at hstep
    next =>
      cases hstep
      exact ⟨h, le_rfl⟩
    next stack hstack =>
      cases hstep
      exact ⟨h.quiet rfl rfl rfl (List.Sublist.refl _), le_rfl⟩
    next stack hstack =>
      cases hstep
      exact ⟨h.quiet rfl rfl rfl (List.Sublist.refl _), le_rfl⟩
    next message messages stack hstack =>
      cases hstep
      exact h.ingest message _

lemma Once.applyStateSync (h : m.Once) {response : StateSyncResponse} {node : ConsensusNode Kel}
    {emits : List Emit} {actions : List Action} (hsafe : response.reaches maxHeight = false)
    (hsync : m.node.applyStateSync env response = .ok (node, emits, actions)) :
    KeepsOnce m { m with node := node, work := actions, emits := m.emits ++ emits } := by
  rcases ConsensusNode.applyStateSync_ok hsync with
    ⟨rfl, rfl, rfl⟩ | ⟨hrestarts, hlt, hreaches, heights, rfl⟩
  · exact ⟨h.quiet (by simp [votes]) rfl rfl (nil_sublist _), le_rfl⟩
  · have hne : node.chain.height ≠ maxHeight := fun heq => by simp [← heq, hreaches] at hsafe
    have hold : m.node.chain.height ≠ maxHeight := fun heq => by
      have hmax := node.chain.height.toNat_lt
      rw [heq] at hlt
      have : maxHeight.toNat = 2 ^ 64 - 1 := rfl
      omega
    have hheight : m.node.currentHeight.toNat < node.currentHeight.toNat := by
      rw [ConsensusNode.currentHeight, ConsensusNode.currentHeight, toNat_succ_of_ne hne,
        toNat_succ_of_ne hold]
      omega
    refine ⟨h.restart hrestarts rfl ?_ hheight, hheight.le⟩
    have hnone : (heights.map fun e => Emit.committed e.1 e.2).filterMap Emit.vote? = [] := by
      simp [filterMap_eq_nil_iff, Emit.vote?]
    simp [votes, filterMap_append, hnone]

lemma Once.moves (h : m.Once) {input : Input} (hsafe : m.overflows input = false)
    (hmoves : Moves m input m') : KeepsOnce m m' := by
  cases hmoves with
  | step hbusy hstep => exact h.step hsafe hstep
  | fail hbusy hstep => exact ⟨h.quiet rfl rfl rfl (nil_sublist _), le_rfl⟩
  | refuse hidle hcall => exact ⟨h, le_rfl⟩
  | @call _ env c hidle hcall =>
    cases c with
    | onMessage message =>
      cases hcall
      exact h.ingest message m.stack
    | onTimeout height round step =>
      by_cases hcurrent : height = m.node.currentHeight
      · simp only [Machine.call, ConsensusNode.onTimeout, if_pos hcurrent] at hcall
        cases hcall
        exact ⟨h.hears (.timeout step round) [] rfl rfl rfl rfl (nil_sublist _), le_rfl⟩
      · simp only [Machine.call, ConsensusNode.onTimeout, if_neg hcurrent] at hcall
        cases hcall
        exact ⟨h.quiet rfl rfl rfl (nil_sublist _), le_rfl⟩
    | catchUp blocks =>
      obtain ⟨⟨node, emits, actions⟩, hsync, hresult⟩ := bind_ok.mp hcall
      cases hresult
      refine h.applyStateSync ?_ hsync
      exact hsafe
    | applyStateSync response =>
      obtain ⟨⟨node, emits, actions⟩, hsync, hresult⟩ := bind_ok.mp hcall
      cases hresult
      exact h.applyStateSync hsafe hsync

end Moves

lemma once_start {n : ConsensusNode Kel} (h : n.Fresh) : n.start.Once := by
  obtain ⟨order, hround⟩ := h.round
  refine ⟨by simp [votes, ConsensusNode.start], by simp [votes, ConsensusNode.start], ?_⟩
  have hstart := votesOnce_start n.currentHeight n.validators n.root order
  rw [← hround] at hstart
  simpa [ConsensusNode.start, castAt, votes] using hstart

/-- **No equivocation.** In every run that starts a node and never takes its height past the last
one, the node broadcasts at most one vote for each height, round and phase, and the height it
decides never falls. -/
theorem never_equivocates [Primitives] [KelOps Kel] {n : ConsensusNode Kel} (hfresh : n.Fresh)
    {m m' : Machine Kel} (hruns : Runs (fun m input => m.overflows input = false) n.start m)
    (hrest : Runs (fun m input => m.overflows input = false) m m') :
    (m'.votes.map Vote.slot).Nodup ∧ m.node.currentHeight ≤ m'.node.currentHeight := by
  have honce : m.Once :=
    hruns.invariant (fun _ _ _ h hsafe hmoves => (h.moves hsafe hmoves).once) (once_start hfresh)
  have hkeeps : KeepsOnce m m' := by
    refine hrest.invariant (P := KeepsOnce m) (fun a input b h hsafe hmoves => ?_) ⟨honce, le_rfl⟩
    have hmove := h.once.moves hsafe hmoves
    exact ⟨hmove.once, h.height_le.trans hmove.height_le⟩
  exact ⟨hkeeps.once.slots_nodup, UInt64.le_iff_toNat_le.mpr hkeeps.height_le⟩

/-! ### Sample runs -/

/-- A step in the sample environment. -/
def sampleStep : Input := .step sampleEnvironment

/-- A peer's vote at round 0 arrives. -/
def samplePeerVote (kind : VoteKind) (height : UInt64) (blockHash : Hash) (scid : String) : Input :=
  .call sampleEnvironment (.onMessage (.vote
    (signVote kind height 0 blockHash ⟨scid⟩ ⟨⟨scid ++ "-device"⟩, fun _ => []⟩)))

/-- The proposer of the first height is silent: a prevote for nothing, then, with those of two peers,
a precommit for nothing. -/
def silentRound : List Input :=
  [sampleStep, .call sampleEnvironment (.onTimeout 1 0 .propose), sampleStep,
    samplePeerVote .prevote 1 nil "b", samplePeerVote .prevote 1 nil "c", sampleStep, sampleStep]

theorem silentRound_votes_once :
    letI := Primitives.sample
    ∃ m : Machine SampleKel, sampleNode.Fresh ∧
      Runs (fun m input => m.overflows input = false) sampleNode.start m ∧
      m.votes.length = 2 ∧ (m.votes.map Vote.slot).Nodup ∧
      sampleNode.start.node.currentHeight ≤ m.node.currentHeight := by
  let := Primitives.sample
  obtain ⟨m, hruns, hlength⟩ := @exists_runs_of_replay SampleKel .sample _
    (fun m input => !m.overflows input) (fun m input => m.overflows input = false) (by simp)
    silentRound sampleNode.start (fun m => decide (m.votes.length = 2)) (by decide +kernel)
  obtain ⟨hnodup, hheight⟩ :=
    never_equivocates (ConsensusNode.fresh_new _ _) (.refl sampleNode.start) hruns
  exact ⟨m, ConsensusNode.fresh_new _ _, hruns, of_decide_eq_true hlength, hnodup, hheight⟩

section Overflow

variable [Primitives]

/-- A header of an empty ledger, at the last height. -/
def lastHeader : BlockHeader where
  height := maxHeight
  prevHash := .zero
  stateRoot := LedgerState.new.commitment
  bodyRoot := .zero
  timestampMs := maxHeight
  proposer := ⟨"a"⟩

def lastSnapshot : StateSyncResponse where
  networkId := mininetNetworkId
  payload := .snapshot ⟨lastHeader, sampleFinality maxHeight lastHeader.hash, .new⟩ []

/-- The header of an empty block on another one. -/
def emptyHeader (height : UInt64) (prevHash : Hash) (scid : String) : BlockHeader where
  height := height
  prevHash := prevHash
  stateRoot := LedgerState.new.commitment
  bodyRoot := SettlementBlockBody.hash {}
  timestampMs := height
  proposer := ⟨scid⟩

/-- After the last height the node decides height 0, and then height 1 again. -/
def wrappedRounds : List Input :=
  let block := (emptyHeader 0 lastHeader.hash "a").hash
  [sampleStep, sampleStep, samplePeerVote .prevote 0 block "b", samplePeerVote .prevote 0 block "c",
    sampleStep, sampleStep, samplePeerVote .precommit 0 block "b",
    samplePeerVote .precommit 0 block "c", sampleStep, sampleStep, sampleStep, sampleStep, sampleStep,
    .call sampleEnvironment (.onMessage (.proposal (signProposal 0 (-1) (emptyHeader 1 block "b") {}
      ⟨"b"⟩ ⟨⟨"b-device"⟩, fun _ => []⟩))), sampleStep]

end Overflow

theorem equivocates_past_last_height :
    letI := Primitives.sample
    ∃ m m' m'' : Machine SampleKel, sampleNode.Fresh ∧
      Runs (fun _ _ => True) sampleNode.start m ∧ Runs (fun _ _ => True) m m' ∧
      m'.node.currentHeight < m.node.currentHeight ∧ Runs (fun _ _ => True) m' m'' ∧
      ∃ v ∈ m''.votes, ∃ w ∈ m''.votes, v.slot = w.slot ∧ v.blockHash ≠ w.blockHash := by
  let := Primitives.sample
  obtain ⟨m, hm, h⟩ := @exists_runs_of_replay SampleKel .sample _ (fun _ _ => true)
    (fun _ _ => True) (by simp) (silentRound.take 3) sampleNode.start (fun m : Machine SampleKel =>
      (@replay SampleKel .sample _ (fun _ _ => true)
        [.call sampleEnvironment (.applyStateSync (@lastSnapshot .sample))] m).any
        fun m' : Machine SampleKel =>
      decide (m'.node.currentHeight < m.node.currentHeight) &&
      (@replay SampleKel .sample _ (fun _ _ => true) (@wrappedRounds .sample) m').any
        fun m'' : Machine SampleKel =>
      decide (∃ v ∈ m''.votes, ∃ w ∈ m''.votes, v.slot = w.slot ∧ v.blockHash ≠ w.blockHash))
    (by decide +kernel)
  obtain ⟨m', hm', h⟩ := exists_runs_of_replay (P := fun _ _ => True) (by simp) _ _ h
  obtain ⟨hlt, h⟩ := Bool.and_eq_true_iff.mp h
  obtain ⟨m'', hm'', h⟩ := exists_runs_of_replay (P := fun _ _ => True) (by simp) _ _ h
  exact ⟨m, m', m'', ConsensusNode.fresh_new _ _, hm, hm', of_decide_eq_true hlt, hm'',
    of_decide_eq_true h⟩

end Machine

end Mininet

import Mininet.Chain.Finality

/-!
# The round driver

`Round` is the Tendermint state machine of one height. It is told of proposals, votes and timeouts
and answers with the actions its host is to take. After every event `evaluate` runs the `upon` rules
until a pass over them emits nothing.
-/

namespace Mininet

/-- The vote for no block this round. -/
def nil : Hash := Hash.zero

/-- The proposer of a round, the same at every node. -/
def proposerFor (height : UInt64) (round : UInt32) (validators : ValidatorSet) : Did :=
  let idx := (height + round.toUInt64).toNat % validators.roots.length
  validators.roots.get ⟨idx, Nat.mod_lt _ (List.length_pos_iff.mpr validators.nonempty)⟩

/-! ### Casts between rounds and stamped rounds -/

/-- `r as i64`. -/
def roundAsI64 (r : UInt32) : Int64 := Int64.ofNat r.toNat

/-- `vr as u32`: the low 32 bits. -/
def i64AsRound (vr : Int64) : UInt32 := vr.toUInt64.toUInt32

lemma toInt_roundAsI64 (r : UInt32) : (roundAsI64 r).toInt = r.toNat := by
  have hr := r.toNat_lt
  rw [roundAsI64, Int64.toInt_ofNat_of_lt (by omega)]

lemma toNat_i64AsRound {vr : Int64} (h : 0 ≤ vr.toInt) :
    ((i64AsRound vr).toNat : ℤ) = vr.toInt % 2 ^ 32 := by
  have hcast : (vr.toUInt64.toNat : ℤ) = vr.toInt := by
    change (vr.toBitVec.toNat : ℤ) = vr.toBitVec.toInt
    change 0 ≤ vr.toBitVec.toInt at h
    have hlt := vr.toBitVec.isLt
    rw [BitVec.toInt_eq_toNat_cond] at h ⊢
    split_ifs at h ⊢ <;> omega
  rw [i64AsRound, UInt64.toNat_toUInt32, ← hcast]
  norm_cast

/-! ### Actions -/

/-- The steps of a round. -/
inductive Step where
  | propose
  | prevote
  | precommit
  deriving DecidableEq, Repr

namespace Step

/-- The order of the steps. -/
def index : Step → ℕ
  | .propose   => 0
  | .prevote   => 1
  | .precommit => 2

def max (a b : Step) : Step := if a.index ≤ b.index then b else a

end Step

/-- Two conflicting votes of one root in one slot. -/
structure EquivocationEvidence where
  first : Vote
  second : Vote
  deriving DecidableEq

/-- What the driver asks of its host. -/
inductive Action where
  | propose (round : UInt32) (reuse : Option Hash) (validRound : Int64)
  | signPrevote (round : UInt32) (target : Hash)
  | signPrecommit (round : UInt32) (target : Hash)
  | scheduleTimeout (step : Step) (round : UInt32)
  | decided (qc : QuorumCertificate)
  | equivocation (evidence : EquivocationEvidence)
  deriving DecidableEq

/-! ### State -/

/-- A proposed value: its id, the stamped round and the host's verdict. -/
structure ProposalInfo where
  id : Hash
  validRound : Int64
  valid : Bool
  deriving DecidableEq

/-- The tallies of one round, by value id. -/
structure RoundVotes where
  prevotes : Std.ExtTreeMap Hash (Finset Did) := ∅
  precommits : Std.ExtTreeMap Hash (Finset Did) := ∅
  /-- One precommit per root and id, the evidence of a certificate. -/
  precommitVotes : Std.ExtTreeMap Hash (List Vote) := ∅
  /-- Every root that sent anything at this round. -/
  participants : Finset Did := ∅
  /-- The first prevote of each root. -/
  prevoteByRoot : Std.ExtTreeMap String Vote := ∅
  /-- The first precommit of each root. -/
  precommitByRoot : Std.ExtTreeMap String Vote := ∅

namespace RoundVotes

def prevoteCount (t : RoundVotes) (id : Hash) : ℕ := (t.prevotes.getD id ∅).card

def precommitCount (t : RoundVotes) (id : Hash) : ℕ := (t.precommits.getD id ∅).card

def totalPrevotes (t : RoundVotes) : ℕ := (t.prevotes.values.map Finset.card).sum

def totalPrecommits (t : RoundVotes) : ℕ := (t.precommits.values.map Finset.card).sum

end RoundVotes

/-- The order in which a hash map's entries are visited: some permutation of them, of which nothing
else is known. -/
structure IterationOrder (α : Type) where
  order : List α → List α
  perm : ∀ l, (order l).Perm l

/-- The entries as they stand. -/
def IterationOrder.given : IterationOrder α := ⟨id, fun _ => .refl _⟩

/-- The driver of one height. -/
structure Round where
  height : UInt64
  validators : ValidatorSet
  localRoot : Did
  round : UInt32
  step : Step
  lockedValue : Option Hash
  lockedRound : Int64
  validValue : Option Hash
  validRound : Int64
  decided : Bool
  proposals : Std.ExtTreeMap UInt32 ProposalInfo
  votes : Std.ExtTreeMap UInt32 RoundVotes
  prevotedRounds : Finset UInt32
  precommittedRounds : Finset UInt32
  prevoteTimeoutArmed : Finset UInt32
  precommitTimeoutArmed : Finset UInt32
  prevoteQuorumSeen : Finset UInt32
  startedRounds : Finset UInt32
  /-- How `proposals` is iterated when looking for a decision. -/
  proposalOrder : IterationOrder (UInt32 × ProposalInfo)

namespace Round

def new (height : UInt64) (validators : ValidatorSet) (localRoot : Did)
    (proposalOrder : IterationOrder (UInt32 × ProposalInfo)) : Round where
  height := height
  validators := validators
  localRoot := localRoot
  round := 0
  step := .propose
  lockedValue := none
  lockedRound := -1
  validValue := none
  validRound := -1
  decided := false
  proposals := ∅
  votes := ∅
  prevotedRounds := ∅
  precommittedRounds := ∅
  prevoteTimeoutArmed := ∅
  precommitTimeoutArmed := ∅
  prevoteQuorumSeen := ∅
  startedRounds := ∅
  proposalOrder := proposalOrder

def quorum (s : Round) : ℕ := s.validators.quorumThreshold

/-- Enough senders that one of them is honest. -/
def fPlusOne (s : Round) : ℕ := s.validators.roots.length - s.quorum + 1

def isLocalProposer (s : Round) (round : UInt32) : Bool :=
  (proposerFor s.height round s.validators).scid == s.localRoot.scid

/-- The prevotes tallied for `id` at a round. -/
def prevoteCount (s : Round) (round : UInt32) (id : Hash) : ℕ :=
  (s.votes[round]?).elim 0 (·.prevoteCount id)

/-- The precommits tallied for `id` at a round. -/
def precommitCount (s : Round) (round : UInt32) (id : Hash) : ℕ :=
  (s.votes[round]?).elim 0 (·.precommitCount id)

/-! ### Rules -/

/-- A rule maps the state to the next one and the actions it adds. -/
abbrev Rule := Round → Round × List Action

/-- One rule after another, on the state the first leaves. -/
def Rule.andThen (f g : Rule) : Rule := fun s =>
  let first := f s
  let second := g first.1
  (second.1, first.2 ++ second.2)

/-- Enter `round` at the propose step, once. -/
def enterRoundCore (round : UInt32) : Rule := fun s =>
  if s.decided || decide (round ∈ s.startedRounds) then (s, [])
  else
    let s' := { s with
      startedRounds := insert round s.startedRounds
      round := round
      step := .propose }
    if s.isLocalProposer round then
      match s.validValue with
      | some v => (s', [.propose round (some v) s.validRound])
      | none   => (s', [.propose round none (-1)])
    else (s', [.scheduleTimeout .propose round])

/-- Mark that a prevote was cast at `round`. -/
def prevote (s : Round) (round : UInt32) : Round :=
  { s with
    prevotedRounds := insert round s.prevotedRounds
    step := if round = s.round then s.step.max .prevote else s.step }

/-- Mark that a precommit was cast at `round`. -/
def precommit (s : Round) (round : UInt32) : Round :=
  { s with
    precommittedRounds := insert round s.precommittedRounds
    step := if round = s.round then s.step.max .precommit else s.step }

/-- A fresh proposal, without a proof of lock change. -/
def ruleProposeFresh : Rule := fun s =>
  let r := s.round
  if s.step ≠ .propose ∨ r ∈ s.prevotedRounds then (s, [])
  else
    match s.proposals[r]? with
    | none   => (s, [])
    | some p =>
      if p.validRound ≠ -1 then (s, [])
      else
        let target := if p.valid = true ∧ (s.lockedRound = -1 ∨ s.lockedValue = some p.id) then p.id
          else nil
        (s.prevote r, [.signPrevote r target])

/-- A value proposed again, with the prevotes of an earlier round as its proof of lock change. The
tally is looked up at the stamped round cut to 32 bits, the lock is compared with all of it. -/
def ruleProposePolc : Rule := fun s =>
  let r := s.round
  if s.step ≠ .propose ∨ r ∈ s.prevotedRounds then (s, [])
  else
    match s.proposals[r]? with
    | none   => (s, [])
    | some p =>
      let vr := p.validRound
      if ¬ (0 ≤ vr ∧ i64AsRound vr < r) then (s, [])
      else if s.prevoteCount (i64AsRound vr) p.id < s.quorum then (s, [])
      else
        let target := if p.valid = true ∧ (s.lockedRound ≤ vr ∨ s.lockedValue = some p.id) then p.id
          else nil
        (s.prevote r, [.signPrevote r target])

/-- A quorum of prevotes for anything, in the prevote step. -/
def rulePrevoteTimeout : Rule := fun s =>
  let r := s.round
  if s.step ≠ .prevote ∨ r ∈ s.prevoteTimeoutArmed then (s, [])
  else if s.quorum ≤ (s.votes[r]?).elim 0 RoundVotes.totalPrevotes then
    ({ s with prevoteTimeoutArmed := insert r s.prevoteTimeoutArmed },
      [.scheduleTimeout .prevote r])
  else (s, [])

/-- A quorum of prevotes for the round's valid proposal: remember the value, and in the prevote step
lock it and precommit. -/
def rulePrevoteQuorum : Rule := fun s =>
  let r := s.round
  if s.step.index < Step.prevote.index ∨ r ∈ s.prevoteQuorumSeen then (s, [])
  else
    match s.proposals[r]? with
    | none   => (s, [])
    | some p =>
      if p.valid = false then (s, [])
      else if s.prevoteCount r p.id < s.quorum then (s, [])
      else
        let s' := { s with
          prevoteQuorumSeen := insert r s.prevoteQuorumSeen
          validValue := some p.id
          validRound := roundAsI64 r }
        if s.step = .prevote ∧ r ∉ s.precommittedRounds then
          (({ s' with lockedValue := some p.id, lockedRound := roundAsI64 r }).precommit r,
            [.signPrecommit r p.id])
        else (s', [])

/-- A quorum of prevotes for no block. -/
def rulePrevoteNil : Rule := fun s =>
  let r := s.round
  if s.step ≠ .prevote ∨ r ∈ s.precommittedRounds then (s, [])
  else if s.quorum ≤ s.prevoteCount r nil then (s.precommit r, [.signPrecommit r nil])
  else (s, [])

/-- A quorum of precommits for anything. -/
def rulePrecommitTimeout : Rule := fun s =>
  let r := s.round
  if r ∈ s.precommitTimeoutArmed then (s, [])
  else if s.quorum ≤ (s.votes[r]?).elim 0 RoundVotes.totalPrecommits then
    ({ s with precommitTimeoutArmed := insert r s.precommitTimeoutArmed },
      [.scheduleTimeout .precommit r])
  else (s, [])

/-- Whether a proposal has a quorum of precommits at its own round. -/
def decisionCandidate (s : Round) (entry : UInt32 × ProposalInfo) : Option (UInt32 × Hash) :=
  if entry.2.valid = false then none
  else if s.quorum ≤ s.precommitCount entry.1 entry.2.id then some (entry.1, entry.2.id)
  else none

/-- The certificate assembled from the precommits for `id` at a round. -/
def certificate (s : Round) (round : UInt32) (id : Hash) : QuorumCertificate where
  height := s.height
  round := round
  blockHash := id
  votes := (s.votes[round]?).elim [] (·.precommitVotes.getD id [])

/-- A quorum of precommits for the valid proposal of any round. -/
def ruleDecide : Rule := fun s =>
  match (s.proposalOrder.order s.proposals.toList).findSome? s.decisionCandidate with
  | none         => (s, [])
  | some (r, id) => ({ s with decided := true }, [.decided (s.certificate r id)])

/-- The earliest later round at which enough roots sent something. -/
def skipTarget (s : Round) : Option UInt32 :=
  ((s.votes.toList.filter fun e => decide (s.round < e.1 ∧ s.fPlusOne ≤ e.2.participants.card)).map
    Prod.fst).min?

/-- Skip to a later round. -/
def ruleSkipRound : Rule := fun s =>
  match s.skipTarget with
  | none   => (s, [])
  | some r => s.enterRoundCore r

/-- One pass over the rules. -/
def pass : Rule :=
  ruleProposeFresh.andThen <| ruleProposePolc.andThen <| rulePrevoteTimeout.andThen <|
    rulePrevoteQuorum.andThen <| rulePrevoteNil.andThen <| rulePrecommitTimeout.andThen <|
    ruleDecide.andThen ruleSkipRound

/-- Passes until one emits nothing or decides. -/
def evaluateLoop : ℕ → Rule
  | 0        => fun s => (s, [])
  | fuel + 1 => fun s =>
    let once := pass s
    if once.1.decided || once.2.isEmpty then once
    else
      let rest := evaluateLoop fuel once.1
      (rest.1, once.2 ++ rest.2)

/-- How many more times the rules can emit: once each for the votes and timers of the current round,
and five times for every later round with votes. -/
def pending (s : Round) : ℕ :=
  5 * (s.votes.keys.filter fun r => decide (s.round < r)).length +
    (if s.round ∈ s.prevotedRounds then 0 else 1) +
    (if s.round ∈ s.precommittedRounds then 0 else 1) +
    (if s.round ∈ s.prevoteTimeoutArmed then 0 else 1) +
    (if s.round ∈ s.precommitTimeoutArmed then 0 else 1)

/-- Every action the accumulated state now warrants. -/
def evaluate : Rule := fun s => if s.decided then (s, []) else evaluateLoop (s.pending + 1) s

/-! ### Events -/

/-- Enter the height. -/
def start : Rule := Rule.andThen (enterRoundCore 0) evaluate

/-- Record a proposal with the host's verdict on it; the first of a round wins. -/
def onProposal (round : UInt32) (id : Hash) (validRound : Int64) (valid : Bool) : Rule := fun s =>
  { s with proposals := s.proposals.insertIfNew round ⟨id, validRound, valid⟩ }.evaluate

section Vote

variable {Kel : Type} [KelOps Kel]

def acceptVote (s : Round) (vote : Vote) (oracle : ValidatorOracle Kel) : Bool :=
  if vote.height ≠ s.height then false
  else if !s.validators.contains vote.validatorRoot then false
  else verifies oracle vote

/-- The tallies of a round with one more participant. -/
def joined (s : Round) (vote : Vote) : RoundVotes :=
  let tally := s.votes.getD vote.round {}
  { tally with participants := insert vote.validatorRoot tally.participants }

/-- The first vote of a root at the round and phase of `vote`. -/
def priorVote (s : Round) (vote : Vote) : Option Vote :=
  match vote.kind with
  | .prevote   => (s.joined vote).prevoteByRoot[vote.validatorRoot.scid]?
  | .precommit => (s.joined vote).precommitByRoot[vote.validatorRoot.scid]?

/-- The tallies of the vote's round after a root's first vote in its phase. -/
def tallied (s : Round) (vote : Vote) : RoundVotes :=
  let tally := s.joined vote
  let scid := vote.validatorRoot.scid
  let id := vote.blockHash
  match vote.kind with
  | .prevote =>
    { tally with
      prevoteByRoot := tally.prevoteByRoot.insert scid vote
      prevotes := tally.prevotes.insert id
        (insert vote.validatorRoot (tally.prevotes.getD id ∅)) }
  | .precommit =>
    let roots := tally.precommits.getD id ∅
    { tally with
      precommitByRoot := tally.precommitByRoot.insert scid vote
      precommits := tally.precommits.insert id (insert vote.validatorRoot roots)
      precommitVotes :=
        if vote.validatorRoot ∈ roots then tally.precommitVotes
        else tally.precommitVotes.insert id (tally.precommitVotes.getD id [] ++ [vote]) }

/-- File a vote. A root counts once per round and phase; a second, different vote is surfaced as
evidence. -/
def onVote (vote : Vote) (oracle : ValidatorOracle Kel) : Rule := fun s =>
  if !s.acceptVote vote oracle then (s, [])
  else
    match s.priorVote vote with
    | some prior =>
      let s' := { s with votes := s.votes.insert vote.round (s.joined vote) }
      if prior.blockHash = vote.blockHash then (s', []) else (s', [.equivocation ⟨prior, vote⟩])
    | none => { s with votes := s.votes.insert vote.round (s.tallied vote) }.evaluate

end Vote

/-- A timer fired; stale ones are ignored. -/
def onTimeout (step : Step) (round : UInt32) : Rule := fun s =>
  if s.decided || decide (round ≠ s.round) then (s, [])
  else
    match step with
    | .propose =>
      if s.step = .propose then
        Rule.andThen (fun s => (s.prevote round, [.signPrevote round nil])) evaluate s
      else (s, [])
    | .prevote =>
      if s.step = .prevote then
        Rule.andThen (fun s => (s.precommit round, [.signPrecommit round nil])) evaluate s
      else (s, [])
    | .precommit => Rule.andThen (enterRoundCore (round + 1)) evaluate s

end Round

end Mininet

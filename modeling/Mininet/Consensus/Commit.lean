import Mininet.Consensus.Locking
import Mininet.Consensus.Machine

/-!
# Decisions commit

Four stores have to agree for a decision to commit: the driver's proposals, its tallies, the node's
cache of values and the chain. `Counted` ties the votes of a certificate to the tally that decides,
`Backed` the driver's requests to the cache, and `Cached` the cached values to the chain.
-/

namespace Mininet

open Codec Fallible List
open Std (ExtTreeMap LawfulEqCmp)

/-! ### Certificates -/

namespace Round

/-- The precommits kept for `id` at a round. -/
def precommitVotesAt (s : Round) (round : UInt32) (id : Hash) : List Vote :=
  (s.votes[round]?).elim [] (·.precommitVotes.getD id [])

/-- A new participant leaves the precommits of its round alone. -/
lemma joined_precommits (s : Round) (vote : Vote) (id : Hash) :
    (s.joined vote).precommitVotes.getD id [] = s.precommitVotesAt vote.round id ∧
      (s.joined vote).precommits.getD id ∅ = s.voters .precommit vote.round id := by
  unfold joined precommitVotesAt voters
  cases h : s.votes[vote.round]? <;> simp [ExtTreeMap.getD_eq_getD_getElem?, h]

lemma precommitVotesAt_joined (s : Round) (vote : Vote) :
    { s with votes := s.votes.insert vote.round (s.joined vote) }.precommitVotesAt =
      s.precommitVotesAt := by
  funext r id
  by_cases hr : vote.round = r
  · subst hr
    rw [← (s.joined_precommits vote id).1]
    simp [precommitVotesAt]
  · simp [precommitVotesAt, ExtTreeMap.getElem?_insert, hr]

/-- A precommit is kept if it is its root's first for the value. -/
lemma precommitVotesAt_tallied (s : Round) (vote : Vote) (r : UInt32) (id : Hash) :
    { s with votes := s.votes.insert vote.round (s.tallied vote) }.precommitVotesAt r id =
      if (vote.kind = .precommit ∧ vote.round = r ∧ vote.blockHash = id) ∧
          vote.validatorRoot ∉ s.voters .precommit r id then
        s.precommitVotesAt r id ++ [vote]
      else s.precommitVotesAt r id := by
  by_cases hr : vote.round = r
  · subst hr
    obtain ⟨hvotes, -⟩ := s.joined_precommits vote id
    obtain ⟨hkept, hroots⟩ := s.joined_precommits vote vote.blockHash
    have hlookup : { s with votes := s.votes.insert vote.round (s.tallied vote) }.precommitVotesAt
        vote.round id = (s.tallied vote).precommitVotes.getD id [] := by simp [precommitVotesAt]
    rw [hlookup]
    unfold tallied
    cases hk : vote.kind with
    | prevote => simp [hvotes]
    | precommit =>
      simp only [hroots, hkept]
      by_cases hmem : vote.validatorRoot ∈ s.voters .precommit vote.round vote.blockHash
      · rw [if_pos hmem, hvotes, if_neg]
        rintro ⟨⟨-, -, rfl⟩, hnew⟩
        exact hnew hmem
      · rw [if_neg hmem, ExtTreeMap.getD_insert]
        by_cases hid : vote.blockHash = id
        · subst hid
          simp [hmem]
        · simp [hid, hvotes]
  · simp [precommitVotesAt, ExtTreeMap.getElem?_insert, hr]

variable {Kel : Type} [KelOps Kel]

/-- The precommits kept for a value are good evidence, one for each root in the tally. -/
structure Counted (oracle : ValidatorOracle Kel) (s : Round) : Prop where
  certifies : ∀ r id, ∀ v ∈ s.precommitVotesAt r id,
    v.Certifies oracle (s.certificate r id) ∧ v.validatorRoot ∈ s.validators.roots
  nodup : ∀ r id, ((s.precommitVotesAt r id).map Vote.validatorRoot).Nodup
  roots : ∀ r id, ((s.precommitVotesAt r id).map Vote.validatorRoot).toFinset =
    s.voters .precommit r id

variable {id : Hash} {e : Event} {oracle : ValidatorOracle Kel} {s s' : Round} {r : UInt32}
  {a : List Action}

lemma certifies_certificate {v : Vote}
    (h : v.Certifies oracle (s.certificate r id)) (hheight : s'.height = s.height) :
    v.Certifies oracle (s'.certificate r id) :=
  ⟨h.kind, h.height.trans hheight.symm, h.round, h.blockHash, h.verifies⟩

lemma Counted.congr (h : s.Counted oracle)
    (hheight : s'.height = s.height) (hvalidators : s'.validators = s.validators)
    (hvotes : s'.precommitVotesAt = s.precommitVotesAt)
    (hvoters : s'.voters .precommit = s.voters .precommit) : s'.Counted oracle where
  certifies r id v hv := by
    rw [hvotes] at hv
    obtain ⟨hcertifies, hroot⟩ := h.certifies r id v hv
    exact ⟨certifies_certificate hcertifies hheight, hvalidators ▸ hroot⟩
  nodup r id := by
    rw [hvotes]
    exact h.nodup r id
  roots r id := by
    rw [hvotes, hvoters]
    exact h.roots r id

lemma Counted.hears (hh : Hears oracle e s s') (h : s.Counted oracle) : s'.Counted oracle := by
  cases hh with
  | nothing => exact h
  | proposal => exact h.congr rfl rfl rfl rfl
  | joined vote accepted =>
    exact h.congr rfl rfl (s.precommitVotesAt_joined vote) (by rw [voters_joined])
  | tallied vote accepted first =>
    obtain ⟨hheight, hroot, hverifies⟩ : vote.height = s.height ∧
        vote.validatorRoot ∈ s.validators.roots ∧ verifies oracle vote = true := by
      simpa [acceptVote, and_assoc] using accepted
    constructor
    case certifies =>
      intro r id v hv
      by_cases hold : v ∈ s.precommitVotesAt r id
      · obtain ⟨hcertifies, hmember⟩ := h.certifies r id v hold
        exact ⟨certifies_certificate hcertifies rfl, hmember⟩
      · rw [precommitVotesAt_tallied] at hv
        split_ifs at hv with hslot
        · obtain ⟨⟨hkind, hr, hid⟩, -⟩ := hslot
          obtain rfl : v = vote := by simpa [hold] using hv
          exact ⟨⟨hkind, hheight, hr, hid, hverifies⟩, hroot⟩
        · exact absurd hv hold
    case nodup =>
      intro r id
      rw [precommitVotesAt_tallied]
      split_ifs with hslot
      · have hnew : vote.validatorRoot ∉ (s.precommitVotesAt r id).map Vote.validatorRoot := by
          rw [← mem_toFinset, h.roots]
          exact hslot.2
        rw [map_append]
        exact (h.nodup r id).append (nodup_singleton _) (by simpa using hnew)
      · exact h.nodup r id
    case roots =>
      intro r id
      rw [precommitVotesAt_tallied, voters_tallied]
      by_cases hslot : vote.kind = .precommit ∧ vote.round = r ∧ vote.blockHash = id
      · by_cases hmem : vote.validatorRoot ∈ s.voters .precommit r id
        · rw [if_neg (fun hnew => hnew.2 hmem), if_pos hslot, h.roots, Finset.insert_eq_of_mem hmem]
        · rw [if_pos ⟨hslot, hmem⟩, if_pos hslot, map_append, toFinset_append, h.roots]
          simp [Finset.union_comm]
      · rw [if_neg (fun hnew => hslot hnew.1), if_neg hslot, h.roots]

lemma Counted.fires (hf : Fires s a s') (h : s.Counted oracle) : s'.Counted oracle := by
  cases hf <;> exact h.congr rfl rfl rfl rfl

lemma counted_new (oracle : ValidatorOracle Kel) (height : UInt64) (validators : ValidatorSet)
    (localRoot : Did) (order : IterationOrder (UInt32 × ProposalInfo)) :
    (new height validators localRoot order).Counted oracle where
  certifies r id v hv := by simp [precommitVotesAt, new] at hv
  nodup r id := by simp [precommitVotesAt, new]
  roots r id := by simp [precommitVotesAt, voters, new]

/-- A certificate assembled from a quorum verifies. -/
lemma Counted.verifyFinality {s : Round} (h : s.Counted oracle)
    (hquorum : s.quorum ≤ s.precommitCount r id) :
    ∃ n, verifyFinality (s.certificate r id) s.validators oracle = .ok n := by
  rw [precommitCount_eq] at hquorum
  have hlength : (s.precommitVotesAt r id).length = (s.voters .precommit r id).card := by
    rw [← h.roots, toFinset_card_of_nodup (h.nodup r id), length_map]
  have hsub : s.voters .precommit r id ⊆ s.validators.members := by
    intro d hd
    rw [← h.roots, mem_toFinset] at hd
    obtain ⟨v, hv, rfl⟩ := mem_map.mp hd
    exact ValidatorSet.mem_members.mpr (h.certifies r id v hv).2
  have hcard : (s.voters .precommit r id).card ≤ maxValidators := by
    refine (Finset.card_le_card hsub).trans ?_
    rw [ValidatorSet.card_members]
    exact s.validators.length_le
  have hcap : (s.certificate r id).votes.length ≤ maxVotesPerCertificate := by
    change (s.precommitVotesAt r id).length ≤ 4 * maxValidators
    omega
  refine ⟨_, verifyFinality_ok_iff.mpr ⟨hcap, hquorum, s.voters .precommit r id, rfl, fun d => ?_⟩⟩
  constructor
  · intro hd
    refine ⟨ValidatorSet.mem_members.mp (hsub hd), ?_⟩
    rw [← h.roots, mem_toFinset] at hd
    obtain ⟨v, hv, rfl⟩ := mem_map.mp hd
    exact ⟨v, hv, (h.certifies r id v hv).1, rfl⟩
  · rintro ⟨-, v, hv, -, rfl⟩
    rw [← h.roots, mem_toFinset]
    exact mem_map_of_mem hv

/-! ### Requests a cache of values can meet -/

/-- A value to be proposed again, or decided, is cached, and a decision carries its proof. -/
def Supports (oracle : ValidatorOracle Kel) (values : ExtTreeMap Hash Proposal compare) (s : Round) :
    Action → Prop
  | .propose _ reuse _ => ∀ id ∈ reuse, id ∈ values
  | .decided qc        => qc.blockHash ∈ values ∧ qc.height = s.height ∧
      ∃ k, Mininet.verifyFinality qc s.validators oracle = .ok k
  | _                  => True

/-- What the driver holds valid is cached, and so are the values it asks for. -/
structure Backed (oracle : ValidatorOracle Kel) (values : ExtTreeMap Hash Proposal compare)
    (s : Round) (log : List Action) : Prop where
  counted : s.Counted oracle
  proposals : ∀ (r : UInt32) (p : ProposalInfo), s.proposals[r]? = some p → p.valid = true →
    p.id ∈ values
  validValue : ∀ id ∈ s.validValue, id ∈ values
  supports : ∀ a ∈ log, s.Supports oracle values a

variable {values values' : ExtTreeMap Hash Proposal compare} {log : List Action}

lemma Supports.mono {a : Action} (h : s.Supports oracle values a) (hheight : s'.height = s.height)
    (hvalidators : s'.validators = s.validators) (hvalues : ∀ id ∈ values, id ∈ values') :
    s'.Supports oracle values' a := by
  cases a with
  | propose round reuse validRound => exact fun id hid => hvalues id (h id hid)
  | decided qc =>
    obtain ⟨hmem, hqc, hfinal⟩ := h
    exact ⟨hvalues _ hmem, hqc.trans hheight.symm, hvalidators ▸ hfinal⟩
  | _ => trivial

lemma Backed.mono {log' : List Action} (h : s.Backed oracle values log)
    (hvalues : ∀ id ∈ values, id ∈ values') (hlog : ∀ a ∈ log', a ∈ log) :
    s.Backed oracle values' log' where
  counted := h.counted
  proposals r p hp hvalid := hvalues _ (h.proposals r p hp hvalid)
  validValue id hid := hvalues id (h.validValue id hid)
  supports a ha := (h.supports a (hlog a ha)).mono rfl rfl hvalues

lemma Backed.mem_of_hasPolka (h : s.Backed oracle values log) (hpolka : s.HasPolka id) :
    id ∈ values := by
  obtain ⟨p, hp, hvalid, rfl, -⟩ := hpolka
  exact h.proposals s.round p hp hvalid

lemma Backed.supports_entryAction (h : s.Backed oracle values log) (r : UInt32) :
    s.Supports oracle values (s.entryAction r) := by
  unfold entryAction
  split
  · exact h.validValue
  · trivial

lemma Backed.fires (hf : Fires s a s') (h : s.Backed oracle values log) :
    s'.Backed oracle values (log ++ a) := by
  obtain ⟨hheight, hvalidators, hproposals, -⟩ := hf.same
  constructor
  case counted => exact h.counted.fires hf
  case proposals =>
    rw [hproposals]
    exact h.proposals
  case validValue =>
    cases hf with
    | observe id live hstep hpolka =>
      intro id' hid'
      obtain rfl : id = id' := by simpa [observed] using hid'
      exact h.mem_of_hasPolka hpolka
    | lock id live hstep hpolka =>
      intro id' hid'
      obtain rfl : id = id' := by simpa [locked, observed, precommit] using hid'
      exact h.mem_of_hasPolka hpolka
    | _ => exact h.validValue
  case supports =>
    intro x hx
    rcases mem_append.mp hx with hx | hx
    · exact (h.supports x hx).mono hheight hvalidators fun _ hid => hid
    · refine Supports.mono (s := s) ?_ hheight hvalidators fun _ hid => hid
      cases hf with
      | decide r p live proposal valid quorum =>
        obtain rfl := mem_singleton.mp hx
        exact ⟨h.proposals r p proposal valid, rfl, h.counted.verifyFinality quorum⟩
      | enter r live fresh later =>
        obtain rfl := mem_singleton.mp hx
        exact h.supports_entryAction r
      | observe => simp at hx
      | _ =>
        obtain rfl := mem_singleton.mp hx
        trivial

/-- A proposal is heard with its verdict: if it is valid, it has to be cached. -/
lemma Backed.hears (hh : Hears oracle e s s')
    (hcached : ∀ r id validRound, e = .proposal r id validRound true → id ∈ values)
    (h : s.Backed oracle values log) : s'.Backed oracle values log := by
  have hcounted := h.counted.hears hh
  cases hh with
  | nothing => exact h
  | proposal round id validRound valid =>
    refine ⟨hcounted, fun r p hp hvalid => ?_, h.validValue,
      fun a ha => (h.supports a ha).mono rfl rfl fun _ hid => hid⟩
    rw [ExtTreeMap.getElem?_insertIfNew] at hp
    split_ifs at hp with hnew
    · cases hp
      cases hvalid
      exact hcached round id validRound rfl
    · exact h.proposals r p hp hvalid
  | joined vote accepted =>
    exact ⟨hcounted, h.proposals, h.validValue,
      fun a ha => (h.supports a ha).mono rfl rfl fun _ hid => hid⟩
  | tallied vote accepted first =>
    exact ⟨hcounted, h.proposals, h.validValue,
      fun a ha => (h.supports a ha).mono rfl rfl fun _ hid => hid⟩

/-- What a driver is for: a height and its validators. -/
def For (s : Round) (height : UInt64) (validators : ValidatorSet) : Prop :=
  s.height = height ∧ s.validators = validators

lemma backed_handle {height : UInt64} {validators : ValidatorSet}
    (hcached : ∀ r id validRound, e = .proposal r id validRound true → id ∈ values)
    (h : s.Backed oracle values log) (hfor : s.For height validators) :
    (s.handle oracle e).1.Backed oracle values (log ++ (s.handle oracle e).2) ∧
      (s.handle oracle e).1.For height validators := by
  refine handle_invariant (I := fun s log => s.Backed oracle values log ∧ s.For height validators)
    oracle e (fun hf ⟨h, hfor⟩ => ⟨h.fires hf, ?_⟩) (fun hh ⟨h, hfor⟩ => ⟨h.hears hh hcached, ?_⟩)
    ⟨h, hfor⟩
  · obtain ⟨hheight, hvalidators, -, -⟩ := hf.same
    exact ⟨hheight.trans hfor.1, hvalidators.trans hfor.2⟩
  · cases hh <;> exact hfor

lemma backed_start (oracle : ValidatorOracle Kel) (values : ExtTreeMap Hash Proposal compare)
    (height : UInt64) (validators : ValidatorSet) (localRoot : Did)
    (order : IterationOrder (UInt32 × ProposalInfo)) :
    let s := new height validators localRoot order
    s.start.1.Backed oracle values s.start.2 ∧ s.start.1.For height validators := by
  intro s
  have hnew : s.Backed oracle values [] :=
    ⟨counted_new oracle height validators localRoot order, by simp [s, new], by simp [s, new],
      by simp⟩
  refine start_invariant (I := fun s log => s.Backed oracle values log ∧ s.For height validators)
    rfl (by simp [s, new]) (fun hf h => ⟨h.1.fires hf, ?_⟩) ⟨?_, rfl, rfl⟩
  · obtain ⟨hheight, hvalidators, -, -⟩ := hf.same
    exact ⟨hheight.trans h.2.1, hvalidators.trans h.2.2⟩
  · refine ⟨hnew.counted.congr rfl rfl rfl rfl, hnew.proposals, hnew.validValue, fun a ha => ?_⟩
    obtain rfl := mem_singleton.mp ha
    exact (hnew.supports_entryAction 0).mono rfl rfl fun _ hid => hid

end Round

/-! ### Values that extend the chain -/

namespace ConsensusNode

variable {Kel : Type} [Primitives]

/-- Every cached value is filed under its hash and extends the chain. -/
def Cached (n : ConsensusNode Kel) : Prop :=
  ∀ (hash : Hash) (p : Proposal), n.values[hash]? = some p →
    p.header.hash = hash ∧ n.chain.Extends n.claimVerifier p.header p.body

variable {n : ConsensusNode Kel} {p : Proposal} {reuse : Option Hash} {validRound : Int64}
  {env : Environment} {round : UInt32}

lemma Cached.insertIfNew (h : n.Cached) (hp : n.chain.Extends n.claimVerifier p.header p.body) :
    { n with values := n.values.insertIfNew p.header.hash p }.Cached := by
  intro hash q hq
  rw [ExtTreeMap.getElem?_insertIfNew] at hq
  split_ifs at hq with hnew
  · cases hq
    exact ⟨LawfulEqCmp.eq_of_compare hnew.1, hp⟩
  · exact h hash q hq

lemma validateProposal_fst : (n.validateProposal p).1 = p.header.hash := by
  unfold validateProposal
  dsimp only
  split_ifs
  · rfl
  · rfl
  · rfl
  · split <;> rfl

lemma extends_of_validateProposal (h : (n.validateProposal p).2 = true) :
    n.chain.Extends n.claimVerifier p.header p.body := by
  unfold validateProposal at h
  dsimp only at h
  split_ifs at h with hslot htime hbody
  rw [not_or, not_not, not_not] at hslot
  split at h
  next state hnext =>
    exact ⟨hslot.1, hslot.2, not_not.mp htime, not_not.mp hbody, state, hnext,
      (of_decide_eq_true h).symm⟩
  next => cases h

/-- A proposed value is a cached one or a successor of the tip. -/
lemma Cached.extends_of_buildProposal (h : n.Cached)
    (hbuild : n.buildProposal env round reuse validRound = .ok p) :
    n.chain.Extends n.claimVerifier p.header p.body := by
  obtain ⟨⟨header, body⟩, hvalue, hresult⟩ := bind_ok.mp hbuild
  cases hresult
  cases reuse with
  | none =>
    obtain ⟨next, hnext, hresult⟩ := bind_ok.mp hvalue
    cases hresult
    exact ⟨rfl, rfl, rfl, rfl, next, mapError_ok.mp hnext, rfl⟩
  | some hash =>
    obtain ⟨cached, hcached, hresult⟩ := bind_ok.mp hvalue
    cases hresult
    exact (h hash cached (okOr_ok.mp hcached)).2

/-- Building a proposal fails only for a new value, if its body does not execute. -/
lemma buildProposal_error {e : ConsensusError} (hreuse : ∀ id ∈ reuse, id ∈ n.values)
    (h : n.buildProposal env round reuse validRound = .error e) :
    reuse = none ∧ ∃ e', n.chain.state.applyBlockWithVerifier (env.bodySource n.currentHeight)
      n.claimVerifier = .error e' ∧ e = .execution e' := by
  rcases bind_error.mp h with hvalue | ⟨_, -, hresult⟩
  · cases reuse with
    | none =>
      rcases bind_error.mp hvalue with hnext | ⟨_, -, hresult⟩
      · obtain ⟨e', he', rfl⟩ := mapError_error.mp hnext
        exact ⟨rfl, e', he', rfl⟩
      · cases hresult
    | some hash =>
      have hsome : (n.values[hash]?).isSome := ExtTreeMap.mem_iff_isSome_getElem?.mp (hreuse hash rfl)
      obtain ⟨cached, hcached⟩ := Option.isSome_iff_exists.mp hsome
      rcases bind_error.mp hvalue with hmissing | ⟨_, -, hresult⟩
      · simp [hcached, okOr] at hmissing
      · cases hresult
  · cases hresult

end ConsensusNode

namespace Machine

section

variable {Kel : Type} [Primitives] [KelOps Kel]

/-- The node can meet every request that is waiting. -/
structure Backed (m : Machine Kel) : Prop where
  archive : m.node.archive = false
  current : m.node.round.For m.node.currentHeight m.node.validators
  cached : m.node.Cached
  backed : m.node.round.Backed m.node.oracle m.node.values m.work

variable {m m' : Machine Kel}

/-! ### Moves -/

variable {env : Environment} {qc : QuorumCertificate}

/-- A step in which the driver hears nothing. -/
lemma Backed.quiet (h : m.Backed) (pending : List ConsensusMessage)
    (hnode : m'.node = { m.node with pending := pending }) (hwork : ∀ a ∈ m'.work, a ∈ m.work) :
    m'.Backed := by
  obtain ⟨node, work, stack, emits⟩ := m'
  subst hnode
  exact ⟨h.archive, h.current, h.cached, h.backed.mono (fun _ hid => hid) hwork⟩

/-- A step in which the driver hears something, and the cache may grow. -/
lemma Backed.tell (h : m.Backed) {values : ExtTreeMap Hash Proposal compare}
    (hvalues : ∀ id ∈ m.node.values, id ∈ values)
    (hcached : { m.node with values := values }.Cached) (e : Round.Event)
    (hevent : ∀ r id validRound, e = .proposal r id validRound true → id ∈ values)
    (rest : List Action) (hrest : ∀ a ∈ rest, a ∈ m.work)
    (hnode : m'.node = ({ m.node with values := values }.tell e).1)
    (hwork : m'.work = rest ++ ({ m.node with values := values }.tell e).2) : m'.Backed := by
  obtain ⟨node, work, stack, emits⟩ := m'
  subst hnode hwork
  obtain ⟨hbacked, hfor⟩ := Round.backed_handle hevent (h.backed.mono hvalues hrest) h.current
  exact ⟨h.archive, hfor, hcached, hbacked⟩

/-- A step in which the driver hears something other than a proposal. -/
lemma Backed.tell_other (h : m.Backed) (e : Round.Event)
    (hevent : ∀ r id validRound, e ≠ .proposal r id validRound true) (rest : List Action)
    (hrest : ∀ a ∈ rest, a ∈ m.work) (hnode : m'.node = (m.node.tell e).1)
    (hwork : m'.work = rest ++ (m.node.tell e).2) : m'.Backed :=
  h.tell (fun _ hid => hid) h.cached e (fun r id validRound he => absurd he (hevent r id validRound))
    rest hrest hnode hwork

/-- A step in which the driver hears of a value, and the value is cached. -/
lemma Backed.tell_value (h : m.Backed) {p : Proposal}
    (hp : m.node.chain.Extends m.node.claimVerifier p.header p.body) (round : UInt32)
    (validRound : Int64) (rest : List Action) (hrest : ∀ a ∈ rest, a ∈ m.work)
    (hnode : m'.node = ({ m.node with values := m.node.values.insertIfNew p.header.hash p }.tell
      (.proposal round p.header.hash validRound true)).1)
    (hwork : m'.work = rest ++ ({ m.node with
      values := m.node.values.insertIfNew p.header.hash p }.tell
      (.proposal round p.header.hash validRound true)).2) : m'.Backed := by
  refine h.tell (fun id hid => ExtTreeMap.mem_insertIfNew.mpr (.inr hid)) (h.cached.insertIfNew hp)
    (.proposal round p.header.hash validRound true) ?_ rest hrest hnode hwork
  rintro r id validRound ⟨⟩
  exact ExtTreeMap.mem_insertIfNew_self

lemma Backed.ingest (h : m.Backed) (message : ConsensusMessage) (stack : List Frame) :
    Machine.Backed { m with
      node := (m.node.ingest message).1
      work := (m.node.ingest message).2
      stack := stack } := by
  have hingests := m.node.ingests_ingest message
  generalize m.node.ingest message = result at hingests ⊢
  cases hingests with
  | ignored pending => exact h.quiet pending rfl (by simp)
  | vote v => exact h.tell_other (.vote v) (by simp) [] (by simp) rfl rfl
  | proposal p =>
    cases hvalid : (m.node.validateProposal p).2 with
    | false =>
      exact h.tell_other (.proposal p.round (m.node.validateProposal p).1 p.validRound false)
        (by simp) [] (by simp) rfl rfl
    | true =>
      rw [ConsensusNode.validateProposal_fst]
      exact h.tell_value (ConsensusNode.extends_of_validateProposal hvalid) p.round p.validRound []
        (by simp) rfl rfl

/-- The next height starts with nothing cached and nothing to meet. -/
lemma Backed.restart {node : ConsensusNode Kel} {actions : List Action} (h : m.Backed)
    (hrestarts : m.node.Restarts node actions) (stack : List Frame) (emits : List Emit) :
    Machine.Backed { node, work := actions, stack, emits } := by
  obtain ⟨order, hstarted⟩ := hrestarts.started
  obtain ⟨hbacked, hfor⟩ := Round.backed_start node.oracle node.values node.currentHeight
    m.node.validators m.node.root order
  rw [← hstarted] at hbacked hfor
  refine ⟨hrestarts.setup.archive.trans h.archive, ?_, ?_, hbacked⟩
  · rw [hrestarts.setup.validators]
    exact hfor
  · intro hash p hp
    simp [hrestarts.values] at hp

lemma Backed.perform (h : m.Backed) {a : Action} {work : List Action} (hwork : m.work = a :: work)
    (hperform : m.perform env work a = .ok m') : m'.Backed := by
  have hrest : ∀ x ∈ work, x ∈ m.work := hwork ▸ fun x hx => mem_cons_of_mem a hx
  cases a with
  | propose round reuse validRound =>
    obtain ⟨p, hbuild, hresult⟩ := bind_ok.mp hperform
    cases hresult
    exact h.tell_value (h.cached.extends_of_buildProposal hbuild) round validRound work hrest rfl rfl
  | signPrevote round target =>
    cases hperform
    exact h.tell_other (.vote _) (by simp) work hrest rfl rfl
  | signPrecommit round target =>
    cases hperform
    exact h.tell_other (.vote _) (by simp) work hrest rfl rfl
  | scheduleTimeout step round =>
    cases hperform
    exact h.quiet m.node.pending rfl hrest
  | equivocation evidence =>
    cases hperform
    exact h.quiet m.node.pending rfl hrest
  | decided qc =>
    obtain ⟨⟨node, emit, actions⟩, hcommit, hresult⟩ := bind_ok.mp hperform
    cases hresult
    obtain ⟨value, commitment, -, -, hrestarts, -⟩ := ConsensusNode.commit_ok hcommit
    exact h.restart hrestarts _ _

lemma Backed.step (h : m.Backed) (hstep : m.step env = .ok m') : m'.Backed := by
  unfold Machine.step at hstep
  split at hstep
  next a work hwork => exact h.perform hwork hstep
  next =>
    split at hstep
    next =>
      cases hstep
      exact h
    next stack hstack =>
      cases hstep
      exact h.quiet [] rfl fun _ ha => ha
    next stack hstack =>
      cases hstep
      exact h.quiet m.node.pending rfl fun _ ha => ha
    next message messages stack hstack =>
      cases hstep
      exact h.ingest message _

/-- The inputs of a node that takes part without catching up: its own steps, messages and timers. -/
def Input.live : Input → Bool
  | .step _                  => true
  | .call _ (.onMessage _)   => true
  | .call _ (.onTimeout ..)  => true
  | .call _ (.catchUp _)     => false
  | .call _ (.applyStateSync _) => false

lemma Backed.moves (h : m.Backed) {input : Input} (hlive : input.live = true)
    (hmoves : Moves m input m') : m'.Backed := by
  cases hmoves with
  | step hbusy hstep => exact h.step hstep
  | fail hbusy hstep => exact h.quiet m.node.pending rfl (by simp [abort])
  | refuse hidle hcall => exact h
  | @call _ env c hidle hcall =>
    cases c with
    | onMessage message =>
      cases hcall
      exact h.ingest message m.stack
    | onTimeout height round step =>
      by_cases hcurrent : height = m.node.currentHeight
      · simp only [Machine.call, ConsensusNode.onTimeout, if_pos hcurrent] at hcall
        cases hcall
        exact h.tell_other (.timeout step round) (by simp) [] (by simp) rfl rfl
      · simp only [Machine.call, ConsensusNode.onTimeout, if_neg hcurrent] at hcall
        cases hcall
        exact h.quiet m.node.pending rfl (by simp)
    | catchUp blocks => cases hlive
    | applyStateSync response => cases hlive

lemma backed_start {n : ConsensusNode Kel} (hfresh : n.Fresh) (harchive : n.archive = false) :
    n.start.Backed := by
  obtain ⟨order, hround⟩ := hfresh.round
  obtain ⟨hbacked, hfor⟩ := Round.backed_start n.oracle n.values n.currentHeight
    n.validators n.root order
  rw [← hround] at hbacked hfor
  refine ⟨harchive, hfor, ?_, hbacked⟩
  intro hash p hp
  simp [ConsensusNode.start, hfresh.values] at hp

/-! ### Decisions -/

/-- The value of a decision, its proof, and its application. -/
lemma Backed.applies (h : m.Backed) (hmem : .decided qc ∈ m.work) :
    ∃ value k result, m.node.values[qc.blockHash]? = some value ∧
      verifyFinality qc m.node.validators m.node.oracle = .ok k ∧
      m.node.chain.applyFinalizedBlockWithVerifier value.header value.body qc m.node.validators
        m.node.oracle m.node.claimVerifier = .ok result := by
  obtain ⟨hvalue, hheight, k, hfinal⟩ := h.backed.supports _ hmem
  obtain ⟨value, hvalue⟩ :=
    Option.isSome_iff_exists.mp (ExtTreeMap.mem_iff_isSome_getElem?.mp hvalue)
  obtain ⟨hhash, hextends⟩ := h.cached _ value hvalue
  rw [h.current.2] at hfinal
  obtain ⟨result, hresult⟩ := hextends.applyFinalizedBlock hfinal
    (hheight.trans (h.current.1.trans hextends.height.symm)) hhash.symm
  exact ⟨value, k, result, hvalue, hfinal, hresult⟩

lemma Backed.commit_ne_error (h : m.Backed) (hmem : .decided qc ∈ m.work)
    (e : ConsensusError) : m.node.commit env qc ≠ .error e := by
  obtain ⟨value, k, ⟨candidate, commitment⟩, hvalue, -, happly⟩ := h.applies hmem
  intro herror
  rcases bind_error.mp herror with hmissing | ⟨value', hvalue', herror⟩
  · simp [hvalue, okOr] at hmissing
  obtain rfl : value = value' := by simpa [hvalue] using hvalue'
  rcases bind_error.mp herror with hreject | ⟨_, -, herror⟩
  · simp [happly, Except.mapError] at hreject
  rcases bind_error.mp herror with harchive | ⟨_, -, hresult⟩
  · simp [ConsensusNode.persist, h.archive] at harchive
  · cases hresult

/-- The one way in which a step fails. -/
lemma Backed.step_error (h : m.Backed) {e : ConsensusError} (hstep : m.step env = .error e) :
    ∃ round validRound work e', m.work = .propose round none validRound :: work ∧
      m.node.chain.state.applyBlockWithVerifier (env.bodySource m.node.currentHeight)
        m.node.claimVerifier = .error e' ∧ e = .execution e' := by
  unfold Machine.step at hstep
  split at hstep
  next a work hwork =>
    have hmem : a ∈ m.work := hwork ▸ mem_cons_self
    cases a with
    | propose round reuse validRound =>
      rcases bind_error.mp hstep with hbuild | ⟨_, -, hresult⟩
      · obtain ⟨rfl, e', hreject, he⟩ :=
          ConsensusNode.buildProposal_error (h.backed.supports _ hmem) hbuild
        exact ⟨round, validRound, work, e', hwork, hreject, he⟩
      · cases hresult
    | decided qc =>
      rcases bind_error.mp hstep with hcommit | ⟨_, -, hresult⟩
      · exact absurd hcommit (h.commit_ne_error hmem e)
      · cases hresult
    | _ => cases hstep
  next => split at hstep <;> cases hstep

/-! ### A lone validator -/

/-- A body source whose second body spends a shielded output. -/
def soloEnvironment : Environment :=
  { sampleEnvironment with
    bodySource := fun height => if height = 1 then {} else { nullifiers := [⟨[1], .zero⟩] } }

/-- The only validator, at genesis, without a verifier for shielded spends. -/
def soloNode : ConsensusNode SampleKel :=
  .new {
    root := ⟨"a"⟩
    device := ⟨⟨"a-device"⟩, fun _ => []⟩
    validators := ⟨[⟨"a"⟩], by decide, by decide, by decide⟩
    oracle := sampleOracle } soloEnvironment.order

/-- Whether a decision is all that is left to do. -/
def decides (m : Machine Kel) : Bool :=
  match m.work with
  | [.decided _] => true
  | _            => false

omit [Primitives] [KelOps Kel] in
lemma exists_of_decides (h : m.decides = true) : ∃ qc, m.work = [.decided qc] := by
  unfold decides at h
  split at h
  next qc hwork => exact ⟨qc, hwork⟩
  next => cases h

/-- Whether all that waits is the step after a commit, and a verifier is missing for it. -/
def stuck (env : Environment) (m : Machine Kel) : Bool :=
  match m.stack, m.step env with
  | [.takePending], .error (.execution .missingClaimVerifier) => true
  | _, _                                                      => false

lemma of_stuck (h : m.stuck env = true) : m.stack = [.takePending] ∧
    m.step env = .error (.execution .missingClaimVerifier) := by
  unfold stuck at h
  split at h
  next hstack hstep => exact ⟨hstack, hstep⟩
  next => cases h

/-! ### The theorem -/

/-- **Decisions commit.** In every run of a node without an archive, over its own steps, messages
and timers, a decided value is cached, its certificate verifies and the chain accepts it; a value to
be proposed again is cached; and a step fails only in building a new proposal, with the error of the
chain on the body that the node's own body source supplied. -/
theorem decision_commits {n : ConsensusNode Kel} (hfresh : n.Fresh) (harchive : n.archive = false)
    {m : Machine Kel} (hruns : Runs (fun _ input => input.live = true) n.start m) :
    (∀ qc, .decided qc ∈ m.work → ∃ value k result, m.node.values[qc.blockHash]? = some value ∧
      verifyFinality qc m.node.validators m.node.oracle = .ok k ∧
      m.node.chain.applyFinalizedBlockWithVerifier value.header value.body qc m.node.validators
        m.node.oracle m.node.claimVerifier = .ok result) ∧
    (∀ round hash validRound, .propose round (some hash) validRound ∈ m.work →
      hash ∈ m.node.values) ∧
    (∀ env e, m.step env = .error e → ∃ round validRound work e',
      m.work = .propose round none validRound :: work ∧
      m.node.chain.state.applyBlockWithVerifier (env.bodySource m.node.currentHeight)
        m.node.claimVerifier = .error e' ∧ e = .execution e') := by
  have hbacked : m.Backed :=
    hruns.invariant (fun _ _ _ h hlive hmoves => h.moves hlive hmoves)
      (backed_start hfresh harchive)
  refine ⟨fun qc hmem => hbacked.applies hmem, fun round hash validRound hmem => ?_,
    fun env e hstep => hbacked.step_error hstep⟩
  exact hbacked.backed.supports _ hmem hash rfl

end

theorem soloNode_commits :
    letI := Primitives.sample
    ∃ (m : Machine SampleKel) (qc : QuorumCertificate), soloNode.Fresh ∧
      soloNode.archive = false ∧ Runs (fun _ input => input.live = true) soloNode.start m ∧
      .decided qc ∈ m.work ∧ ∃ value k result, m.node.values[qc.blockHash]? = some value ∧
        verifyFinality qc m.node.validators m.node.oracle = .ok k ∧
        m.node.chain.applyFinalizedBlockWithVerifier value.header value.body qc m.node.validators
          m.node.oracle m.node.claimVerifier = .ok result := by
  let := Primitives.sample
  obtain ⟨m, hruns, hdecides⟩ := @exists_runs_of_replay SampleKel .sample _
    (fun _ input => input.live) (fun _ input => input.live = true) (fun _ _ h => h)
    (List.replicate 5 (.step soloEnvironment)) soloNode.start (fun m => m.decides)
    (by decide +kernel)
  obtain ⟨qc, hwork⟩ := exists_of_decides hdecides
  have hmem : .decided qc ∈ m.work := hwork ▸ mem_singleton_self _
  exact ⟨m, qc, ConsensusNode.fresh_new _ _, rfl, hruns, hmem,
    (decision_commits (ConsensusNode.fresh_new _ _) rfl hruns).1 qc hmem⟩

/-- The decision is committed, and the commit then fails in starting the next height: the node
proposes there, and the chain rejects the body it was given. -/
theorem commit_fails_on_own_body :
    letI := Primitives.sample
    ∃ (m m' : Machine SampleKel) (qc : QuorumCertificate), soloNode.Fresh ∧
      soloNode.archive = false ∧ Runs (fun _ input => input.live = true) soloNode.start m ∧
      m.work = [.decided qc] ∧ m.step soloEnvironment = .ok m' ∧ m'.stack = [.takePending] ∧
      m'.step soloEnvironment = .error (.execution .missingClaimVerifier) := by
  let := Primitives.sample
  obtain ⟨m, hruns, hm⟩ := @exists_runs_of_replay SampleKel .sample _
    (fun _ input => input.live) (fun _ input => input.live = true) (fun _ _ h => h)
    (List.replicate 5 (.step soloEnvironment)) soloNode.start (fun m =>
      m.decides && (@step SampleKel .sample _ m soloEnvironment).toOption.any
        (@stuck SampleKel .sample _ soloEnvironment))
    (by decide +kernel)
  obtain ⟨hdecides, hm⟩ := Bool.and_eq_true_iff.mp hm
  obtain ⟨qc, hwork⟩ := exists_of_decides hdecides
  obtain ⟨m', hstep, hm⟩ := exists_of_any _ hm
  exact ⟨m, m', qc, ConsensusNode.fresh_new _ _, rfl, hruns, hwork, hstep, of_stuck hm⟩

end Machine

end Mininet

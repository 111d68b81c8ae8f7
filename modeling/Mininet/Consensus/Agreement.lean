import Mininet.Consensus.Locking

/-!
# Agreement

The drivers of one height, one at every validator that is not Byzantine, with every message order.
Proposals may carry anything, with one verdict per block at all honest nodes; a vote that verifies
in the name of an honest root was asked for by that root's own driver. Where every proposal heard is
tame, no two honest drivers decide differently. The driver's locks make its log a locked vote in the
sense of `Voting.LockedVoting`, and the quorum argument is the one proved there.
-/

namespace Mininet

open Round

variable {Kel : Type} [KelOps Kel]

/-- One height of a chain: its validators, of whom some are Byzantine, the logs everyone verifies
votes with, and the verdict of honest nodes on each block. -/
structure Height (Kel : Type) where
  height : UInt64
  validators : ValidatorSet
  oracle : ValidatorOracle Kel
  valid : Hash → Bool
  byzantine : Finset Did
  /-- How each node's hash maps happen to be iterated. -/
  order : Did → IterationOrder (UInt32 × ProposalInfo)
  byzantine_lt : byzantine.card < 2 * validators.quorumThreshold - validators.len

/-- The state of every driver, with everything it has emitted. -/
structure Network where
  node : Did → Round
  log : Did → List Action

/-- The driver of `vote`'s root asked for the vote. -/
def Network.Signed (net : Network) (vote : Vote) : Prop :=
  match vote.kind with
  | .prevote   => .signPrevote vote.round vote.blockHash ∈ net.log vote.validatorRoot
  | .precommit => .signPrecommit vote.round vote.blockHash ∈ net.log vote.validatorRoot

instance (net : Network) (vote : Vote) : Decidable (net.Signed vote) := by
  unfold Network.Signed
  split <;> infer_instance

namespace Height

variable (c : Height Kel)

/-- A validator that is not Byzantine. -/
def Honest (d : Did) : Prop := d ∈ c.validators.roots ∧ d ∉ c.byzantine

instance (d : Did) : Decidable (c.Honest d) := inferInstanceAs (Decidable (_ ∧ _))

/-- Every driver has started and heard nothing. -/
def init : Network where
  node d := (start (Round.new c.height c.validators d (c.order d))).1
  log d := (start (Round.new c.height c.validators d (c.order d))).2

/-- What an event may be: a proposal carries the common verdict, and a vote of an honest root that
verifies was signed by it. -/
def Admissible (net : Network) : Event → Prop
  | .proposal _ id _ valid => valid = c.valid id
  | .vote vote             => vote.height = c.height → c.Honest vote.validatorRoot →
      verifies c.oracle vote = true → net.Signed vote
  | .timeout _ _           => True

instance (net : Network) : (e : Event) → Decidable (c.Admissible net e)
  | .proposal .. | .vote _ | .timeout .. => by unfold Admissible; infer_instance

/-- An event reaches the driver of `i`. -/
def deliver (net : Network) (i : Did) (e : Event) : Network where
  node := Function.update net.node i ((net.node i).handle c.oracle e).1
  log := Function.update net.log i (net.log i ++ ((net.node i).handle c.oracle e).2)

/-- The runs of the height: events reach honest drivers in any order. -/
inductive Runs : List (Did × Event) → Network → Prop
  | init : Runs [] c.init
  | deliver {events : List (Did × Event)} {net : Network} (i : Did) (e : Event)
      (run : Runs events net) (honest : c.Honest i) (admissible : c.Admissible net e) :
      Runs (events ++ [(i, e)]) (c.deliver net i e)

variable {c}

variable {net : Network} {d : Did} {s : Round} {log : List Action} {events : List (Did × Event)}
  {kind : VoteKind} {s' : Round} {r : UInt32} {e : Event}

@[simp] lemma deliver_node_self (net : Network) (i : Did) (e : Event) :
    (c.deliver net i e).node i = ((net.node i).handle c.oracle e).1 := Function.update_self ..

@[simp] lemma deliver_log_self (net : Network) (i : Did) (e : Event) :
    (c.deliver net i e).log i = net.log i ++ ((net.node i).handle c.oracle e).2 :=
  Function.update_self ..

lemma deliver_node_of_ne {i : Did} (e : Event) (h : d ≠ i) :
    (c.deliver net i e).node d = net.node d := Function.update_of_ne h ..

lemma deliver_log_of_ne {i : Did} (e : Event) (h : d ≠ i) :
    (c.deliver net i e).log d = net.log d := Function.update_of_ne h ..

lemma mem_log_deliver (i : Did) (e : Event) {a : Action} (h : a ∈ net.log d) :
    a ∈ (c.deliver net i e).log d := by
  by_cases hd : d = i
  · subst hd
    rw [deliver_log_self]
    exact List.mem_append_left _ h
  · rwa [deliver_log_of_ne e hd]

/-! ### The invariant of a run -/

/-- A root cast a vote, as far as an honest tally can tell. -/
def Cast (c : Height Kel) (net : Network) (kind : VoteKind) (r : UInt32) (id : Hash) (d : Did) :
    Prop :=
  d ∈ c.validators.roots ∧ (d ∉ c.byzantine → match kind with
    | .prevote   => .signPrevote r id ∈ net.log d
    | .precommit => .signPrecommit r id ∈ net.log d)

lemma Cast.deliver {id : Hash} (i : Did) (e : Event)
    (h : c.Cast net kind r id d) : c.Cast (c.deliver net i e) kind r id d := by
  refine ⟨h.1, fun hd => ?_⟩
  have hsigned := h.2 hd
  cases kind <;> exact mem_log_deliver i e hsigned

/-- What is true of one driver in a run. -/
structure Good (c : Height Kel) (net : Network) (s : Round) (log : List Action) : Prop where
  height : s.height = c.height
  validators : s.validators = c.validators
  tame : s.ProposalsTame
  locking : s.Locking log
  voters : ∀ kind r id, ∀ d ∈ s.voters kind r id, c.Cast net kind r id d

/-- Every driver's state and log are good. -/
def Inv (c : Height Kel) (net : Network) : Prop := ∀ d, c.Good net (net.node d) (net.log d)

omit [KelOps Kel] in
lemma Good.fires {a : List Action} (hf : Fires s a s') (h : c.Good net s log) :
    c.Good net s' (log ++ a) where
  height := hf.same.1.trans h.height
  validators := hf.same.2.1.trans h.validators
  tame := h.tame.fires hf
  locking := h.locking.fires hf h.tame
  voters := by cases hf <;> exact h.voters

/-- An accepted vote of an admissible event was cast. -/
lemma cast_of_acceptVote (h : c.Good net s log) {vote : Vote} (hadm : c.Admissible net (.vote vote))
    (haccept : s.acceptVote vote c.oracle = true) :
    c.Cast net vote.kind vote.round vote.blockHash vote.validatorRoot := by
  unfold acceptVote at haccept
  split_ifs at haccept with hheight hroot
  have hmem : vote.validatorRoot ∈ c.validators.roots := by
    rw [← h.validators]
    simpa using hroot
  refine ⟨hmem, fun hbyz => ?_⟩
  have hsigned := hadm ((not_not.mp hheight).trans h.height) ⟨hmem, hbyz⟩ haccept
  unfold Network.Signed at hsigned
  cases hk : vote.kind <;> rw [hk] at hsigned <;> exact hsigned

lemma Good.hears (hh : Hears c.oracle e s s') (hadm : c.Admissible net e)
    (htame : e.Tame) (h : c.Good net s log) : c.Good net s' log where
  height := by rw [← h.height]; cases hh <;> rfl
  validators := by rw [← h.validators]; cases hh <;> rfl
  tame := h.tame.hears hh htame
  locking := h.locking.hears hh
  voters kind r id d hd := by
    rcases mem_voters_of_hears hh hd with hd | ⟨vote, rfl, haccept, rfl, rfl, rfl, rfl⟩
    · exact h.voters kind r id d hd
    · exact cast_of_acceptVote h hadm haccept

lemma Good.deliver (i : Did) (e : Event) (h : c.Good net s log) :
    c.Good (c.deliver net i e) s log :=
  ⟨h.height, h.validators, h.tame, h.locking,
    fun kind r id d hd => (h.voters kind r id d hd).deliver i e⟩

omit [KelOps Kel] in
/-- A new driver that has entered round 0. -/
lemma good_new (c : Height Kel) (net : Network) (d : Did) :
    c.Good net ((Round.new c.height c.validators d (c.order d)).entered 0)
      [(Round.new c.height c.validators d (c.order d)).entryAction 0] := by
  have hsign : ∀ a, a ∈ [(Round.new c.height c.validators d (c.order d)).entryAction 0] →
      (∃ r v vr, a = .propose r v vr) ∨ a = .scheduleTimeout .propose 0 := by
    intro a ha
    rw [List.mem_singleton.mp ha]
    unfold entryAction
    split
    · exact .inl ⟨_, _, _, rfl⟩
    · exact .inr rfl
  refine ⟨rfl, rfl, fun r p hp => ?_, ⟨votesOnce_new .., fun id hid => ?_, fun r id hmem => ?_,
    fun r id hmem => ?_, fun r v t w hmem => ?_, fun qc hmem => ?_⟩, fun kind r id d hd => ?_⟩
  · simp [entered, Round.new] at hp
  · simp [entered, Round.new] at hid
  · rcases hsign _ hmem with ⟨_, _, _, h⟩ | h <;> cases h
  · rcases hsign _ hmem with ⟨_, _, _, h⟩ | h <;> cases h
  · rcases hsign _ hmem with ⟨_, _, _, h⟩ | h <;> cases h
  · rcases hsign _ hmem with ⟨_, _, _, h⟩ | h <;> cases h
  · cases kind <;> simp [voters, entered, Round.new] at hd

omit [KelOps Kel] in
lemma inv_init (c : Height Kel) : c.Inv c.init := fun d =>
  start_invariant (I := c.Good c.init) rfl (by simp [Round.new]) Good.fires (good_new c c.init d)

/-- One delivery keeps the invariant. -/
lemma Inv.deliver (h : c.Inv net) (i : Did) (hadm : c.Admissible net e) (htame : e.Tame) :
    c.Inv (c.deliver net i e) := by
  intro d
  by_cases hd : d = i
  · subst hd
    rw [deliver_node_self, deliver_log_self]
    have hgood := handle_invariant (I := c.Good net) c.oracle e Good.fires
      (fun hh => Good.hears hh hadm htame) (h d)
    exact hgood.deliver d e
  · rw [deliver_node_of_ne e hd, deliver_log_of_ne e hd]
    exact (h d).deliver i e

lemma Runs.inv (hrun : c.Runs events net) (htame : ∀ x ∈ events, x.2.Tame) : c.Inv net := by
  induction hrun with
  | init => exact inv_init c
  | deliver i e _ _ hadm ih =>
    refine (ih fun x hx => htame x (List.mem_append_left _ hx)).deliver i hadm ?_
    exact htame (i, e) (by simp)

/-! ### Refinement of locked voting -/

/-- The validators as a committee. -/
def committee (c : Height Kel) : Voting.Committee Did where
  members := c.validators.members
  faulty := c.byzantine
  quorum := c.validators.quorumThreshold
  faulty_lt := by simpa using c.byzantine_lt

omit [KelOps Kel] in
/-- A quorum in an honest tally is a quorum of the committee that cast the vote. -/
lemma Good.supported (h : c.Good net s log) {id : Hash}
    (hq : s.HasQuorum kind r id) {P : Did → Prop}
    (hP : ∀ d, d ∉ c.byzantine → c.Cast net kind r id d → P d) : c.committee.Supported P := by
  refine ⟨s.voters kind r id, fun d hd => ?_, ?_, fun d hd hbyz => ?_⟩
  · simpa [committee] using (h.voters kind r id d hd).1
  · simpa [committee, HasQuorum, quorum, h.validators] using hq
  · exact hP d hbyz (h.voters kind r id d hd)

/-- The votes the drivers asked for, as a locked vote of the committee. -/
def Inv.lockedVoting {net : Network} (h : c.Inv net) : Voting.LockedVoting c.committee Hash where
  prevoted d k id := ∃ r : UInt32, r.toNat = k ∧ .signPrevote r id ∈ net.log d
  precommitted d k id := ∃ r : UInt32, r.toNat = k ∧ .signPrecommit r id ∈ net.log d
  nil := nil
  prevote_unique d _ k v w := by
    rintro ⟨r, rfl, hv⟩ ⟨r', hr', hw⟩
    obtain rfl := UInt32.toNat_inj.mp hr'
    have heq := eq_of_nodup_filterMap (h d).locking.slots_nodup hv hw rfl rfl
    cases heq
    rfl
  precommit_unique d _ k v w := by
    rintro ⟨r, rfl, hv⟩ ⟨r', hr', hw⟩
    obtain rfl := UInt32.toNat_inj.mp hr'
    have heq := eq_of_nodup_filterMap (h d).locking.slots_nodup hv hw rfl rfl
    cases heq
    rfl
  precommit_supported d _ k v := by
    rintro ⟨r, rfl, hv⟩ hne
    exact (h d).supported ((h d).locking.precommit_quorum r v hv hne) fun n hn hcast =>
      ⟨r, rfl, hcast.2 hn⟩
  prevote_unlocked d _ k v l w := by
    rintro ⟨r, rfl, hv⟩ hvne ⟨t, rfl, hw⟩ hwne hlt hne
    obtain ⟨j, hrj, hjt, hq⟩ := (h d).locking.prevote_unlock r v t w hv hvne hw hwne
      (UInt32.lt_iff_toNat_lt.mpr hlt) hne
    refine ⟨j.toNat, UInt32.le_iff_toNat_le.mp hrj, UInt32.lt_iff_toNat_lt.mp hjt, ?_⟩
    exact (h d).supported hq fun n hn hcast => ⟨j, rfl, hcast.2 hn⟩

omit [KelOps Kel] in
/-- A decision has a quorum of precommits of the committee behind it. -/
lemma Inv.decided_supported (h : c.Inv net) {qc : QuorumCertificate} (hqc : .decided qc ∈ net.log d) :
    c.committee.Supported (h.lockedVoting.precommitted · qc.round.toNat qc.blockHash) :=
  (h d).supported ((h d).locking.decided_quorum qc hqc).1 fun _ hn hcast =>
    ⟨qc.round, rfl, hcast.2 hn⟩

/-! ### Runs by evaluation -/

/-- Deliver a list of events, checking each one. -/
def replay (c : Height Kel) : List (Did × Event) → Network → Option Network
  | [], net          => some net
  | (i, e) :: es, net =>
    if c.Honest i ∧ c.Admissible net e then replay c es (c.deliver net i e) else none

lemma Runs.replay {before : List (Did × Event)} {net' : Network} (hrun : c.Runs before net)
    (h : c.replay events net = some net') : c.Runs (before ++ events) net' := by
  induction events generalizing before net with
  | nil =>
    cases h
    simpa using hrun
  | cons x es ih =>
    obtain ⟨i, e⟩ := x
    unfold Height.replay at h
    split_ifs at h with hstep
    simpa using ih (.deliver i e hrun hstep.1 hstep.2) h

/-- A list of events that replays from the start is a run. -/
lemma exists_runs (c : Height Kel) (events : List (Did × Event)) (P : Network → Bool)
    (h : (c.replay events c.init).any P = true) : ∃ net, c.Runs events net ∧ P net = true := by
  cases hreplay : c.replay events c.init with
  | none => simp [hreplay] at h
  | some net => exact ⟨net, by simpa using Runs.replay .init hreplay, by simpa [hreplay] using h⟩

/-- Whether a log has a decision for `id`. -/
def decides (log : List Action) (id : Hash) : Bool :=
  log.any fun
    | .decided qc => qc.blockHash == id
    | _           => false

lemma exists_of_decides {id : Hash} (h : decides log id = true) :
    ∃ qc, .decided qc ∈ log ∧ qc.blockHash = id := by
  obtain ⟨a, ha, hdec⟩ := List.any_eq_true.mp h
  cases a with
  | decided qc => exact ⟨qc, ha, by simpa using hdec⟩
  | _ => simp at hdec

/-- Four validators of whom the last is Byzantine, every block but the all-zero id valid. -/
def sample : Height SampleKel where
  height := 1
  validators := .sample
  oracle := sampleOracle
  valid id := id != nil
  byzantine := {⟨"d"⟩}
  order _ := .given
  byzantine_lt := by decide

/-- Two blocks. -/
def blockA : Hash := Vector.replicate 32 1

def blockB : Hash := Vector.replicate 32 2

/-- A vote of each of `voters` reaches each of `nodes`. -/
def voteEvents (kind : VoteKind) (round : UInt32) (id : Hash) (voters nodes : List String) :
    List (Did × Event) :=
  nodes.flatMap fun d => voters.map fun v => (⟨d⟩, .vote
    { kind := kind, height := 1, round := round, blockHash := id, validatorRoot := ⟨v⟩,
      validatorDevice := ⟨v⟩, signature := [] })

/-- A proposal reaches each of `nodes`. -/
def proposalEvents (round : UInt32) (id : Hash) (validRound : Int64) (nodes : List String) :
    List (Did × Event) :=
  nodes.map fun d => (⟨d⟩, .proposal round id validRound true)

/-- A timer fires at each of `nodes`. -/
def timeoutEvents (step : Step) (round : UInt32) (nodes : List String) : List (Did × Event) :=
  nodes.map fun d => (⟨d⟩, .timeout step round)

/-- One round in which the first two validators decide. -/
def oneRound : List (Did × Event) :=
  proposalEvents 0 blockA (-1) ["a", "b", "c"] ++
    voteEvents .prevote 0 blockA ["a", "b", "c"] ["a", "b", "c"] ++
    voteEvents .precommit 0 blockA ["a", "b", "c"] ["a", "b"]

/-- **Agreement.** In every run in which each proposal delivered is tame, no two honest drivers
decide different blocks. -/
theorem agreement (events : List (Did × Event)) (net : Network) (hrun : c.Runs events net)
    (htame : ∀ x ∈ events, x.2.Tame) (i j : Did) (qc qc' : QuorumCertificate)
    (hqc : .decided qc ∈ net.log i) (hqc' : .decided qc' ∈ net.log j) :
    qc.blockHash = qc'.blockHash := by
  have hinv := hrun.inv htame
  exact hinv.lockedVoting.precommit_supported_unique
    ((hinv i).locking.decided_quorum qc hqc).2 ((hinv j).locking.decided_quorum qc' hqc').2
    (hinv.decided_supported hqc) (hinv.decided_supported hqc')

theorem agreement_one_round : ∃ net qc qc', sample.Runs oneRound net ∧
    .decided qc ∈ net.log ⟨"a"⟩ ∧ .decided qc' ∈ net.log ⟨"b"⟩ ∧ qc.blockHash = qc'.blockHash := by
  obtain ⟨net, hrun, hdec⟩ := exists_runs sample oneRound
    (fun net => decides (net.log ⟨"a"⟩) blockA && decides (net.log ⟨"b"⟩) blockA) (by decide +kernel)
  obtain ⟨ha, hb⟩ := Bool.and_eq_true_iff.mp hdec
  obtain ⟨qc, hqc, -⟩ := exists_of_decides ha
  obtain ⟨qc', hqc', -⟩ := exists_of_decides hb
  exact ⟨net, qc, qc', hrun, hqc, hqc',
    agreement oneRound net hrun (by decide +kernel) _ _ qc qc' hqc hqc'⟩

/-- Three rounds. All prevote `blockB` in round 0 and time out, so a quorum of prevotes for it
exists but locks nobody. In round 1 all lock `blockA` and the first validator decides it. In round 2
the Byzantine validator proposes `blockB` again, stamped with round `2 ^ 32`: cut to 32 bits that is
round 0, where the quorum is, and uncut it outranks every lock. -/
def forkedRun : List (Did × Event) :=
  proposalEvents 0 blockB (-1) ["a", "b", "c"] ++
    timeoutEvents .prevote 0 ["a", "b", "c"] ++
    timeoutEvents .precommit 0 ["a", "b", "c"] ++
    proposalEvents 1 blockA (-1) ["a", "b", "c"] ++
    voteEvents .prevote 1 blockA ["a", "b", "c"] ["a", "b", "c"] ++
    voteEvents .precommit 1 blockA ["a", "b", "c"] ["a"] ++
    timeoutEvents .precommit 1 ["b", "c"] ++
    voteEvents .prevote 0 blockB ["a", "b", "c"] ["b", "c"] ++
    proposalEvents 2 blockB (2 ^ 32) ["b", "c"] ++
    voteEvents .prevote 2 blockB ["b", "c", "d"] ["b", "c"] ++
    voteEvents .precommit 2 blockB ["b", "c", "d"] ["b"]

theorem forkedRun_decides_both : ∃ net qc qc', sample.Runs forkedRun net ∧
    .decided qc ∈ net.log ⟨"a"⟩ ∧ .decided qc' ∈ net.log ⟨"b"⟩ ∧ qc.blockHash ≠ qc'.blockHash := by
  obtain ⟨net, hrun, hdec⟩ := exists_runs sample forkedRun
    (fun net => decides (net.log ⟨"a"⟩) blockA && decides (net.log ⟨"b"⟩) blockB) (by decide +kernel)
  obtain ⟨ha, hb⟩ := Bool.and_eq_true_iff.mp hdec
  obtain ⟨qc, hqc, hA⟩ := exists_of_decides ha
  obtain ⟨qc', hqc', hB⟩ := exists_of_decides hb
  exact ⟨net, qc, qc', hrun, hqc, hqc', by rw [hA, hB]; decide⟩

end Height

end Mininet

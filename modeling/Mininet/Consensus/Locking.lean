import Mininet.Consensus.RoundInvariant

/-!
# Locking

What one driver's own lock promises: a precommit for a block stands behind a quorum of prevotes for
it and locks it, and a later prevote for another block has a quorum of prevotes for that block in
between. This needs the proposals heard to be tame: a stamped round whose low 32 bits are below the
proposal's own round fits in 32 bits, and the all-zero id is not judged a valid block.
-/

namespace Mininet

open List

/-- The conditions on a proposal under which the driver's lock is kept. -/
structure ProposalInfo.Tame (p : ProposalInfo) (round : UInt32) : Prop where
  stamp : 0 ≤ p.validRound → i64AsRound p.validRound < round → p.validRound.toInt < 2 ^ 32
  id_ne_nil : p.valid = true → p.id ≠ nil

instance (p : ProposalInfo) (round : UInt32) : Decidable (p.Tame round) :=
  decidable_of_iff ((0 ≤ p.validRound → i64AsRound p.validRound < round →
      p.validRound.toInt < 2 ^ 32) ∧ (p.valid = true → p.id ≠ nil))
    ⟨fun h => ⟨h.1, h.2⟩, fun h => ⟨h.stamp, h.id_ne_nil⟩⟩

/-- A tame stamp below its own round is the round it is looked up at. -/
lemma ProposalInfo.Tame.toInt_stamp {p : ProposalInfo} {round : UInt32} (h : p.Tame round)
    (hpos : 0 ≤ p.validRound) (hlt : i64AsRound p.validRound < round) :
    p.validRound.toInt = (i64AsRound p.validRound).toNat := by
  have hsmall := h.stamp hpos hlt
  have hnonneg : 0 ≤ p.validRound.toInt := by simpa [Int64.le_iff_toInt_le] using hpos
  rw [toNat_i64AsRound hnonneg, Int.emod_eq_of_lt hnonneg hsmall]

lemma roundAsI64_injective : Function.Injective roundAsI64 := fun a b h => by
  have hint := congrArg Int64.toInt h
  rw [toInt_roundAsI64, toInt_roundAsI64] at hint
  exact UInt32.toNat_inj.mp (by exact_mod_cast hint)

lemma roundAsI64_ne_neg_one (r : UInt32) : roundAsI64 r ≠ -1 := fun h => by
  have hint := congrArg Int64.toInt h
  rw [toInt_roundAsI64] at hint
  have hneg : (-1 : Int64).toInt = -1 := rfl
  omega

namespace Round

/-! ### Tallies -/

/-- The roots tallied for a block in a phase of a round. -/
def voters (s : Round) (kind : VoteKind) (round : UInt32) (id : Hash) : Finset Did :=
  match kind with
  | .prevote   => (s.votes[round]?).elim ∅ (·.prevotes.getD id ∅)
  | .precommit => (s.votes[round]?).elim ∅ (·.precommits.getD id ∅)

lemma prevoteCount_eq (s : Round) (round : UInt32) (id : Hash) :
    s.prevoteCount round id = (s.voters .prevote round id).card := by
  unfold prevoteCount voters
  cases s.votes[round]? <;> rfl

lemma precommitCount_eq (s : Round) (round : UInt32) (id : Hash) :
    s.precommitCount round id = (s.voters .precommit round id).card := by
  unfold precommitCount voters
  cases s.votes[round]? <;> rfl

lemma voters_joined (s : Round) (vote : Vote) :
    { s with votes := s.votes.insert vote.round (s.joined vote) }.voters = s.voters := by
  funext kind r id
  by_cases hr : vote.round = r
  · subst hr
    cases h : s.votes[vote.round]? <;>
      cases kind <;> simp [voters, joined, Std.ExtTreeMap.getD_eq_getD_getElem?, h]
  · cases kind <;> simp [voters, Std.ExtTreeMap.getElem?_insert, hr]

lemma voters_tallied (s : Round) (vote : Vote) (kind : VoteKind) (r : UInt32) (id : Hash) :
    { s with votes := s.votes.insert vote.round (s.tallied vote) }.voters kind r id =
      if vote.kind = kind ∧ vote.round = r ∧ vote.blockHash = id then
        insert vote.validatorRoot (s.voters kind r id)
      else s.voters kind r id := by
  by_cases hr : vote.round = r
  · subst hr
    have hjoined : ∀ kind id, { s with votes := s.votes.insert vote.round (s.joined vote) }.voters
        kind vote.round id = s.voters kind vote.round id := fun kind id => by rw [voters_joined]
    have hpre := hjoined .prevote id
    have hcom := hjoined .precommit id
    simp only [voters, Std.ExtTreeMap.getElem?_insert_self, Option.elim_some] at hpre hcom
    by_cases hid : vote.blockHash = id
    · subst hid
      cases hk : vote.kind <;> cases kind <;>
        simp [voters, tallied, hk, ← hpre, ← hcom]
    · cases hk : vote.kind <;> cases kind <;>
        simp [voters, tallied, hk, ← hpre, ← hcom, hid, Std.ExtTreeMap.getD_insert]
  · cases kind <;> simp [voters, Std.ExtTreeMap.getElem?_insert, hr]

section Hears

variable {Kel : Type} [KelOps Kel] {oracle : ValidatorOracle Kel} {e : Event} {s s' : Round}

/-- Whoever is newly tallied cast the vote that was heard, and it was accepted. -/
lemma mem_voters_of_hears (h : Hears oracle e s s') {kind : VoteKind} {r : UInt32} {id : Hash}
    {d : Did} (hd : d ∈ s'.voters kind r id) :
    d ∈ s.voters kind r id ∨ ∃ vote, e = .vote vote ∧ s.acceptVote vote oracle = true ∧
      vote.kind = kind ∧ vote.round = r ∧ vote.blockHash = id ∧ vote.validatorRoot = d := by
  cases h with
  | nothing e => exact .inl hd
  | proposal round id' validRound valid => exact .inl hd
  | joined vote accepted =>
    rw [voters_joined] at hd
    exact .inl hd
  | tallied vote accepted first =>
    rw [voters_tallied] at hd
    split_ifs at hd with hslot
    · rcases Finset.mem_insert.mp hd with rfl | hd
      · exact .inr ⟨vote, rfl, accepted, hslot.1, hslot.2.1, hslot.2.2, rfl⟩
      · exact .inl hd
    · exact .inl hd

/-- Tallies only grow. -/
lemma voters_subset_of_hears (h : Hears oracle e s s') (kind : VoteKind) (r : UInt32) (id : Hash) :
    s.voters kind r id ⊆ s'.voters kind r id := by
  cases h with
  | nothing e | proposal round id' validRound valid => exact subset_rfl
  | joined vote accepted => rw [voters_joined]
  | tallied vote accepted first =>
    rw [voters_tallied]
    split_ifs
    · exact Finset.subset_insert _ _
    · exact subset_rfl

end Hears

/-- A quorum of votes for a block in a phase of a round. -/
def HasQuorum (s : Round) (kind : VoteKind) (round : UInt32) (id : Hash) : Prop :=
  s.quorum ≤ (s.voters kind round id).card

/-! ### The lock -/

/-- Every proposal heard is tame. -/
def ProposalsTame (s : Round) : Prop :=
  ∀ (r : UInt32) (p : ProposalInfo), s.proposals[r]? = some p → p.Tame r

/-- What the driver's lock says about everything it has asked to sign. -/
structure Locking (s : Round) (log : List Action) : Prop extends s.VotesOnce log where
  lock_quorum : ∀ id, s.lockedValue = some id → ∃ k, s.lockedRound = roundAsI64 k ∧
    s.HasQuorum .prevote k id ∧ k ≤ s.round ∧ (k = s.round → s.step = .precommit)
  precommit_quorum : ∀ r id, .signPrecommit r id ∈ log → id ≠ nil → s.HasQuorum .prevote r id
  precommit_lock : ∀ r id, .signPrecommit r id ∈ log → id ≠ nil → ∃ k v,
    s.lockedRound = roundAsI64 k ∧ s.lockedValue = some v ∧ r ≤ k ∧ (r = k → id = v)
  prevote_unlock : ∀ r v t w, .signPrecommit r v ∈ log → v ≠ nil → .signPrevote t w ∈ log →
    w ≠ nil → r < t → w ≠ v → ∃ k, r ≤ k ∧ k < t ∧ s.HasQuorum .prevote k w
  decided_quorum : ∀ qc, .decided qc ∈ log →
    s.HasQuorum .precommit qc.round qc.blockHash ∧ qc.blockHash ≠ nil

namespace Locking

variable {s s' : Round} {log a : List Action}

variable {r : UInt32} {id : Hash}

lemma prevoted_le (h : s.Locking log) (hmem : .signPrevote r id ∈ log) : r ≤ s.round :=
  h.voted_le .prevote r (h.slots_voted .prevote r (mem_filterMap.mpr ⟨_, hmem, rfl⟩))

lemma precommitted_le (h : s.Locking log) (hmem : .signPrecommit r id ∈ log) : r ≤ s.round :=
  h.voted_le .precommit r (h.slots_voted .precommit r (mem_filterMap.mpr ⟨_, hmem, rfl⟩))

/-- In an open round every precommit so far is of an earlier round. -/
lemma precommitted_lt (h : s.Locking log) (hstep : s.step ≠ .precommit)
    (hmem : .signPrecommit r id ∈ log) : r < s.round := by
  have hvoted := h.slots_voted .precommit r (mem_filterMap.mpr ⟨_, hmem, rfl⟩)
  have hne : r ≠ s.round := fun heq => h.voted_open .precommit hstep (heq ▸ hvoted)
  exact UInt32.lt_of_le_of_ne (h.precommitted_le hmem) hne

/-- What a tame proposal that may be prevoted says about an earlier precommit for another block. -/
lemma quorum_of_mayPrevote (h : s.Locking log) (htame : s.ProposalsTame) (hstep : s.step = .propose)
    {w : Hash} (hmay : s.MayPrevote w) {v : Hash} (hmem : .signPrecommit r v ∈ log) (hv : v ≠ nil) :
    ∃ k, r ≤ k ∧ k < s.round ∧ s.HasQuorum .prevote k w := by
  obtain ⟨k, v', hround, hvalue, hrk, -⟩ := h.precommit_lock r v hmem hv
  -- the lock itself is a quorum in between when it already holds the new block
  have hlocked : s.lockedValue = some w → ∃ k, r ≤ k ∧ k < s.round ∧ s.HasQuorum .prevote k w := by
    intro hw
    obtain ⟨j, hj, hq, hle, hcur⟩ := h.lock_quorum w hw
    obtain rfl : j = k := roundAsI64_injective (hj.symm.trans hround)
    refine ⟨j, hrk, UInt32.lt_of_le_of_ne hle fun heq => ?_, hq⟩
    simp [hstep] at hcur
    exact hcur heq
  obtain ⟨p, hp, -, rfl, ⟨-, hfree | hw⟩ | ⟨hpos, hlt, hq, hle | hw⟩⟩ := hmay
  · exact absurd (hround.symm.trans hfree) (roundAsI64_ne_neg_one k)
  · exact hlocked hw
  · refine ⟨i64AsRound p.validRound, ?_, hlt, ?_⟩
    · have hstamp := (htame _ _ hp).toInt_stamp hpos hlt
      rw [hround, Int64.le_iff_toInt_le, toInt_roundAsI64, hstamp] at hle
      exact UInt32.le_trans hrk (UInt32.le_iff_toNat_le.mpr (by exact_mod_cast hle))
    · rwa [HasQuorum, ← prevoteCount_eq]
  · exact hlocked hw

/-- An effect that signs nothing for a block and keeps the lock. -/
lemma keep (h : s.Locking log) (honce : s'.VotesOnce (log ++ a))
    (hvalue : s'.lockedValue = s.lockedValue) (hround : s'.lockedRound = s.lockedRound)
    (hvoters : ∀ kind r id, s.HasQuorum kind r id → s'.HasQuorum kind r id)
    (hlater : ∀ k, k ≤ s.round → (k = s.round → s.step = .precommit) →
      k ≤ s'.round ∧ (k = s'.round → s'.step = .precommit))
    (hprecommit : ∀ r id, .signPrecommit r id ∈ a → id = nil)
    (hprevote : ∀ r id, .signPrevote r id ∈ a → id = nil)
    (hdecided : ∀ qc, .decided qc ∈ a →
      s'.HasQuorum .precommit qc.round qc.blockHash ∧ qc.blockHash ≠ nil) :
    s'.Locking (log ++ a) where
  toVotesOnce := honce
  lock_quorum id hid := by
    obtain ⟨k, hk, hq, hle, hcur⟩ := h.lock_quorum id (hvalue ▸ hid)
    exact ⟨k, hround.trans hk, hvoters _ _ _ hq, hlater k hle hcur⟩
  precommit_quorum r id hmem hne := by
    rcases mem_append.mp hmem with hmem | hmem
    · exact hvoters _ _ _ (h.precommit_quorum r id hmem hne)
    · exact absurd (hprecommit r id hmem) hne
  precommit_lock r id hmem hne := by
    rcases mem_append.mp hmem with hmem | hmem
    · rw [hvalue, hround]
      exact h.precommit_lock r id hmem hne
    · exact absurd (hprecommit r id hmem) hne
  prevote_unlock r v t w hr hv ht hw hlt hne := by
    rcases mem_append.mp hr with hr | hr
    · rcases mem_append.mp ht with ht | ht
      · obtain ⟨k, hrk, hkt, hq⟩ := h.prevote_unlock r v t w hr hv ht hw hlt hne
        exact ⟨k, hrk, hkt, hvoters _ _ _ hq⟩
      · exact absurd (hprevote t w ht) hw
    · exact absurd (hprecommit r v hr) hv
  decided_quorum qc hqc := by
    rcases mem_append.mp hqc with hqc | hqc
    · exact ⟨hvoters _ _ _ (h.decided_quorum qc hqc).1, (h.decided_quorum qc hqc).2⟩
    · exact hdecided qc hqc

/-- A prevote in the propose step. -/
lemma prevote (h : s.Locking log) (htame : s.ProposalsTame) (target : Hash)
    (live : s.decided = false) (hstep : s.step = .propose)
    (allowed : target = nil ∨ s.MayPrevote target) :
    (s.prevote s.round).Locking (log ++ [.signPrevote s.round target]) where
  toVotesOnce := h.toVotesOnce.fires (.prevote target live hstep allowed)
  lock_quorum id hid := by
    obtain ⟨k, hk, hq, hle, hcur⟩ := h.lock_quorum id hid
    refine ⟨k, hk, hq, hle, fun heq => ?_⟩
    simp [hstep] at hcur
    exact absurd heq hcur
  precommit_quorum r id hmem hne := h.precommit_quorum r id (by simpa using hmem) hne
  precommit_lock r id hmem hne := h.precommit_lock r id (by simpa using hmem) hne
  prevote_unlock r v t w hr hv ht hw hlt hne := by
    have hr' : .signPrecommit r v ∈ log := by simpa using hr
    rcases mem_append.mp ht with ht | ht
    · exact h.prevote_unlock r v t w hr' hv ht hw hlt hne
    · obtain ⟨rfl, rfl⟩ : t = s.round ∧ w = target := by simpa using ht
      exact h.quorum_of_mayPrevote htame hstep (allowed.resolve_left hw) hr' hv
  decided_quorum qc hqc := h.decided_quorum qc (by simpa using hqc)

/-- Locking the round's block. Every earlier precommit is of an earlier round, so the new lock
outranks it. -/
lemma lock (h : s.Locking log) (id : Hash) (live : s.decided = false) (hstep : s.step = .prevote)
    (polka : s.HasPolka id) : (s.locked id).Locking (log ++ [.signPrecommit s.round id]) := by
  have hopen : s.step ≠ .precommit := by simp [hstep]
  have hq : s.HasQuorum .prevote s.round id := by
    obtain ⟨p, -, -, -, hq⟩ := polka
    rwa [HasQuorum, ← prevoteCount_eq]
  refine ⟨h.toVotesOnce.fires (.lock id live hstep polka), fun id' hid' => ?_,
    fun r v hmem hne => ?_, fun r v hmem hne => ?_, fun r v t w hr hv ht hw hlt hne => ?_,
    fun qc hqc => h.decided_quorum qc (by simpa using hqc)⟩
  · obtain rfl : id = id' := by simpa [locked, precommit] using hid'
    refine ⟨s.round, rfl, hq, UInt32.le_refl _, fun _ => ?_⟩
    simp [locked, observed, precommit, hstep, Step.max, Step.index]
  · rcases mem_append.mp hmem with hmem | hmem
    · exact h.precommit_quorum r v hmem hne
    · obtain ⟨rfl, rfl⟩ : r = s.round ∧ v = id := by simpa using hmem
      exact hq
  · refine ⟨s.round, id, rfl, rfl, ?_⟩
    rcases mem_append.mp hmem with hmem | hmem
    · have hlt := h.precommitted_lt hopen hmem
      exact ⟨UInt32.le_of_lt hlt, fun heq => absurd heq (UInt32.ne_of_lt hlt)⟩
    · obtain ⟨rfl, rfl⟩ : r = s.round ∧ v = id := by simpa using hmem
      exact ⟨UInt32.le_refl _, fun _ => rfl⟩
  · have ht' : .signPrevote t w ∈ log := by simpa using ht
    rcases mem_append.mp hr with hr | hr
    · exact h.prevote_unlock r v t w hr hv ht' hw hlt hne
    · obtain ⟨rfl, rfl⟩ : r = s.round ∧ v = id := by simpa using hr
      exact absurd (h.prevoted_le ht') (UInt32.not_le.mpr hlt)

lemma fires (hf : Fires s a s') (h : s.Locking log) (htame : s.ProposalsTame) :
    s'.Locking (log ++ a) := by
  have honce := h.toVotesOnce.fires hf
  cases hf with
  | prevote target live step allowed => exact h.prevote htame target live step allowed
  | armPrevote live =>
    exact h.keep honce rfl rfl (fun _ _ _ => id) (fun _ hle hcur => ⟨hle, hcur⟩) (by simp) (by simp)
      (by simp)
  | observe id live step polka =>
    exact h.keep honce rfl rfl (fun _ _ _ => fun hq => hq) (fun _ hle hcur => ⟨hle, hcur⟩) (by simp)
      (by simp) (by simp)
  | lock id live step polka => exact h.lock id live step polka
  | precommitNil live step =>
    refine h.keep honce rfl rfl (fun _ _ _ => id) (fun k hle _ => ⟨hle, fun _ => ?_⟩) (by simp)
      (by simp) (by simp)
    simp [precommit, step, Step.max, Step.index]
  | armPrecommit live =>
    exact h.keep honce rfl rfl (fun _ _ _ => id) (fun _ hle hcur => ⟨hle, hcur⟩) (by simp) (by simp)
      (by simp)
  | decide r p live proposal valid quorum =>
    refine h.keep honce rfl rfl (fun _ _ _ => id) (fun _ hle hcur => ⟨hle, hcur⟩) (by simp) (by simp)
      fun qc hqc => ?_
    obtain rfl : qc = s.certificate r p.id := by simpa using hqc
    refine ⟨?_, (htame r p proposal).id_ne_nil valid⟩
    rw [precommitCount_eq] at quorum
    exact quorum
  | enter r live fresh later =>
    have hlt := h.lt_of_fresh fresh later
    have haction : s.entryAction r = .scheduleTimeout .propose r ∨
        ∃ v vr, s.entryAction r = .propose r v vr := by
      unfold entryAction
      split
      · exact .inr ⟨_, _, rfl⟩
      · exact .inl rfl
    refine h.keep honce rfl rfl (fun _ _ _ => id) (fun k hle _ => ?_) ?_ ?_ ?_
    · have hk := UInt32.lt_of_le_of_lt hle hlt
      exact ⟨UInt32.le_of_lt hk, fun heq => absurd heq (UInt32.ne_of_lt hk)⟩
    all_goals
      rcases haction with haction | ⟨v, vr, haction⟩ <;> simp [haction]
  | accuse evidence =>
    exact h.keep honce rfl rfl (fun _ _ _ => id) (fun _ hle hcur => ⟨hle, hcur⟩) (by simp) (by simp)
      (by simp)

lemma hears {Kel : Type} [KelOps Kel] {oracle : ValidatorOracle Kel} {e : Event}
    (hh : Hears oracle e s s') (h : s.Locking log) : s'.Locking log := by
  have hquorum : s'.quorum = s.quorum := by cases hh <;> rfl
  have hgrow : ∀ kind r id, s.HasQuorum kind r id → s'.HasQuorum kind r id := fun kind r id hq => by
    unfold HasQuorum at hq ⊢
    rw [hquorum]
    exact hq.trans (Finset.card_le_card (voters_subset_of_hears hh kind r id))
  have honce := h.toVotesOnce.hears hh
  have hkeep : s'.Locking (log ++ []) := by
    refine h.keep (by simpa using honce) ?_ ?_ hgrow (fun k hle hcur => ?_) (by simp) (by simp)
      (by simp)
    · cases hh <;> rfl
    · cases hh <;> rfl
    · cases hh <;> exact ⟨hle, hcur⟩
  simpa using hkeep

end Locking

/-! ### Tame proposals stay tame -/

lemma ProposalsTame.fires {s s' : Round} {a : List Action} (hf : Fires s a s')
    (h : s.ProposalsTame) : s'.ProposalsTame := by
  cases hf <;> exact h

/-- An event whose proposal, if it is one, is tame. -/
def Event.Tame : Event → Prop
  | .proposal round id validRound valid => (ProposalInfo.mk id validRound valid).Tame round
  | _                                   => True

instance (e : Event) : Decidable e.Tame := by
  unfold Event.Tame
  split <;> infer_instance

lemma ProposalsTame.hears {Kel : Type} [KelOps Kel] {oracle : ValidatorOracle Kel} {e : Event}
    {s s' : Round} (hh : Hears oracle e s s') (he : e.Tame) (h : s.ProposalsTame) :
    s'.ProposalsTame := by
  cases hh with
  | nothing e => exact h
  | proposal round id validRound valid =>
    intro r p hp
    rw [Std.ExtTreeMap.getElem?_insertIfNew] at hp
    split_ifs at hp with hnew
    · obtain rfl : round = r := by simpa using hnew.1
      cases hp
      exact he
    · exact h r p hp
  | joined vote accepted => exact h
  | tallied vote accepted first => exact h

end Round

end Mininet

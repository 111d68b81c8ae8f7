import Mininet.Consensus.RoundSteps

/-!
# Voting once

The once-guards, the step and the started rounds together exclude a second vote: every round and
phase in which the driver has asked for a signature is marked, and it asks again only where nothing
is marked. The round only grows, also where the code adds one to the largest `u32`.
-/

namespace Mininet

open List

/-- The phase and round of the vote an action asks for. -/
def Action.slot : Action → Option (VoteKind × UInt32)
  | .signPrevote round _   => some (.prevote, round)
  | .signPrecommit round _ => some (.precommit, round)
  | _                      => none

lemma eq_of_nodup_filterMap {α β : Type*} {f : α → Option β} {l : List α}
    (h : (l.filterMap f).Nodup) {a b : α} {c : β} (ha : a ∈ l) (hb : b ∈ l) (hfa : f a = some c)
    (hfb : f b = some c) : a = b := by
  induction l with
  | nil => cases ha
  | cons x l ih =>
    have hmem : ∀ {y}, y ∈ l → f y = some c → c ∈ l.filterMap f := fun hy hfy =>
      mem_filterMap.mpr ⟨_, hy, hfy⟩
    rcases mem_cons.mp ha with rfl | hal <;> rcases mem_cons.mp hb with rfl | hbl
    · rfl
    · rw [filterMap_cons_some hfa, nodup_cons] at h
      exact absurd (hmem hbl hfb) h.1
    · rw [filterMap_cons_some hfb, nodup_cons] at h
      exact absurd (hmem hal hfa) h.1
    · refine ih (h.sublist ?_) hal hbl
      exact List.Sublist.filterMap f (sublist_cons_self x l)

namespace Round

variable {s s' : Round} {log : List Action} {a : List Action}

@[simp] lemma slot_entryAction (s : Round) (r : UInt32) : (s.entryAction r).slot = none := by
  unfold entryAction
  split <;> rfl

/-- The rounds marked as voted in a phase. -/
def voted (s : Round) : VoteKind → Finset UInt32
  | .prevote   => s.prevotedRounds
  | .precommit => s.precommittedRounds

/-- A vote of a phase in the current round is still open. -/
def stepBefore : VoteKind → Step → Prop
  | .prevote, step   => step = .propose
  | .precommit, step => step ≠ .precommit

/-- The driver has voted at most once per round and phase. -/
structure VotesOnce (s : Round) (log : List Action) : Prop where
  started_zero : 0 ∈ s.startedRounds
  started_le : ∀ r ∈ s.startedRounds, r ≤ s.round
  voted_le : ∀ kind, ∀ r ∈ s.voted kind, r ≤ s.round
  voted_open : ∀ kind, stepBefore kind s.step → s.round ∉ s.voted kind
  slots_nodup : (log.filterMap Action.slot).Nodup
  slots_voted : ∀ kind r, (kind, r) ∈ log.filterMap Action.slot → r ∈ s.voted kind

/-- A round that was not started is later than the current one: adding one to the largest `u32`
gives 0, which was. -/
lemma VotesOnce.lt_of_fresh (h : s.VotesOnce log) {r : UInt32} (hfresh : r ∉ s.startedRounds)
    (hlater : s.round < r ∨ r = s.round + 1) : s.round < r := by
  rcases hlater with hlt | rfl
  · exact hlt
  · have hne : s.round + 1 ≠ 0 := fun hzero => hfresh (hzero ▸ h.started_zero)
    rw [UInt32.lt_iff_toNat_lt, UInt32.toNat_add]
    have hlt := s.round.toNat_lt
    by_cases hmax : s.round.toNat + 1 = 2 ^ 32
    · refine absurd (UInt32.toNat_inj.mp ?_) hne
      rw [UInt32.toNat_add]
      simp [hmax]
    · have : (1 : UInt32).toNat = 1 := rfl
      omega

/-- Emitting an action that asks for no vote, with the marks and the round unchanged. -/
lemma VotesOnce.emit (h : s.VotesOnce log) (hslot : a.filterMap Action.slot = [])
    (hstarted : s'.startedRounds = s.startedRounds) (hround : s'.round = s.round)
    (hstep : s'.step = s.step) (hvoted : s'.voted = s.voted) : s'.VotesOnce (log ++ a) where
  started_zero := hstarted ▸ h.started_zero
  started_le := by rw [hstarted, hround]; exact h.started_le
  voted_le := by rw [hvoted, hround]; exact h.voted_le
  voted_open := by rw [hvoted, hround, hstep]; exact h.voted_open
  slots_nodup := by rw [filterMap_append, hslot, append_nil]; exact h.slots_nodup
  slots_voted := by
    rw [filterMap_append, hslot, append_nil, hvoted]
    exact h.slots_voted

/-- Voting in an open phase of the current round, with the vote marked and the phase closed. -/
lemma VotesOnce.vote {a : Action} (h : s.VotesOnce log) (kind : VoteKind)
    (hslot : a.slot = some (kind, s.round)) (hopen : stepBefore kind s.step)
    (hstarted : s'.startedRounds = s.startedRounds) (hround : s'.round = s.round)
    (hself : s'.voted kind = insert s.round (s.voted kind))
    (hother : ∀ k ≠ kind, s'.voted k = s.voted k)
    (hclosed : ∀ k, stepBefore k s'.step → k ≠ kind ∧ stepBefore k s.step) :
    s'.VotesOnce (log ++ [a]) := by
  have hsub : ∀ k, s.voted k ⊆ s'.voted k := fun k => by
    by_cases hk : k = kind
    · rw [hk, hself]
      exact Finset.subset_insert _ _
    · rw [hother k hk]
  have hnew : (kind, s.round) ∉ log.filterMap Action.slot := fun hmem =>
    h.voted_open kind hopen (h.slots_voted _ _ hmem)
  have hslots : (log ++ [a]).filterMap Action.slot =
      log.filterMap Action.slot ++ [(kind, s.round)] := by simp [hslot]
  refine ⟨hstarted ▸ h.started_zero, ?_, fun k r hr => ?_, fun k hk => ?_, ?_, fun k r hr => ?_⟩
  · rw [hstarted, hround]
    exact h.started_le
  · rw [hround]
    by_cases hkind : k = kind
    · rw [hkind, hself, Finset.mem_insert] at hr
      rcases hr with rfl | hr
      · exact UInt32.le_refl _
      · exact h.voted_le kind r hr
    · exact h.voted_le k r (hother k hkind ▸ hr)
  · obtain ⟨hkind, hk⟩ := hclosed k hk
    rw [hround, hother k hkind]
    exact h.voted_open k hk
  · rw [hslots]
    exact nodup_append.mpr ⟨h.slots_nodup, nodup_singleton _, by
      rintro x hx y hy rfl
      exact hnew (mem_singleton.mp hy ▸ hx)⟩
  · rw [hslots, mem_append, mem_singleton] at hr
    rcases hr with hr | hr
    · exact hsub k (h.slots_voted k r hr)
    · cases hr
      rw [hself]
      exact Finset.mem_insert_self _ _

/-- Every effect keeps the votes single. -/
lemma VotesOnce.fires (hf : Fires s a s') (h : s.VotesOnce log) : s'.VotesOnce (log ++ a) := by
  cases hf with
  | prevote target live step allowed =>
    refine h.vote .prevote rfl step rfl rfl rfl (fun k hk => ?_) fun k hk => ?_
    · cases k with
      | prevote => exact absurd rfl hk
      | precommit => rfl
    · cases k with
      | prevote => simp [stepBefore, Round.prevote, step, Step.max, Step.index] at hk
      | precommit => simp [stepBefore, step]
  | armPrevote live
  | observe id live step polka => exact h.emit rfl rfl rfl rfl (funext fun k => by cases k <;> rfl)
  | lock id live step polka =>
    refine h.vote .precommit rfl (by simp [stepBefore, step]) rfl rfl rfl
      (fun k hk => ?_) fun k hk => ?_
    · cases k with
      | prevote => rfl
      | precommit => exact absurd rfl hk
    · cases k <;> simp [stepBefore, locked, observed, precommit, step, Step.max, Step.index] at hk
  | precommitNil live step =>
    refine h.vote .precommit rfl (by simp [stepBefore, step]) rfl rfl rfl
      (fun k hk => ?_) fun k hk => ?_
    · cases k with
      | prevote => rfl
      | precommit => exact absurd rfl hk
    · cases k <;> simp [stepBefore, precommit, step, Step.max, Step.index] at hk
  | armPrecommit live => exact h.emit rfl rfl rfl rfl (funext fun k => by cases k <;> rfl)
  | decide r p live proposal valid quorum =>
    exact h.emit rfl rfl rfl rfl (funext fun k => by cases k <;> rfl)
  | enter r live fresh later =>
    have hlt := h.lt_of_fresh fresh later
    have hle : ∀ k, k ≤ s.round → k ≤ r := fun k hk => UInt32.le_trans hk (UInt32.le_of_lt hlt)
    have hvoted : (s.entered r).voted = s.voted := funext fun k => by cases k <;> rfl
    refine ⟨Finset.mem_insert_of_mem h.started_zero, fun k hk => ?_, fun k j hj => ?_,
      fun k _ hj => ?_, ?_, ?_⟩
    · rcases Finset.mem_insert.mp hk with rfl | hk
      · exact UInt32.le_refl _
      · exact hle k (h.started_le k hk)
    · exact hle j (h.voted_le k j (hvoted ▸ hj))
    · exact UInt32.not_le.mpr hlt (h.voted_le k r (hvoted ▸ hj))
    · simpa using h.slots_nodup
    · simpa [hvoted] using h.slots_voted
  | accuse evidence => exact h.emit rfl rfl rfl rfl rfl

/-- Hearing something asks for no vote. -/
lemma VotesOnce.hears {Kel : Type} [KelOps Kel] {oracle : ValidatorOracle Kel} {e : Event}
    (hh : Hears oracle e s s') (h : s.VotesOnce log) : s'.VotesOnce log := by
  have hkeep : s'.VotesOnce (log ++ []) := by
    cases hh <;> exact h.emit rfl rfl rfl rfl (funext fun k => by cases k <;> rfl)
  simpa using hkeep

lemma votesOnce_new (height : UInt64) (validators : ValidatorSet) (localRoot : Did)
    (order : IterationOrder (UInt32 × ProposalInfo)) :
    ((new height validators localRoot order).entered 0).VotesOnce
      [(new height validators localRoot order).entryAction 0] where
  started_zero := Finset.mem_insert_self _ _
  started_le r hr := by
    simp only [entered, new, insert_empty_eq, Finset.mem_singleton] at hr
    exact hr ▸ UInt32.le_refl _
  voted_le kind r hr := by cases kind <;> simp [entered, new, voted] at hr
  voted_open kind _ := by cases kind <;> simp [entered, new, voted]
  slots_nodup := by simp
  slots_voted := by simp

end Round

end Mininet

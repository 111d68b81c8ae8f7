import Mathlib

/-!
# Quorums and locked voting

A committee has a quorum size large enough that any two quorums share a member that is not faulty.
Over such a committee the locking discipline of two-phase voting is stated on its own: honest
members vote once per round and phase, precommit a value only behind a quorum of prevotes for it,
and once they have precommitted a value prevote another one only behind a quorum of prevotes for
the other value in a round no earlier. Two quorums of precommits then name one value, in whatever
rounds they formed.
-/

namespace Voting

open Finset

variable {N V : Type*} [DecidableEq N]

lemma card_add_card_le {A B U : Finset N} (hA : A ⊆ U) (hB : B ⊆ U) :
    A.card + B.card ≤ (A ∩ B).card + U.card := by
  have hsum := card_union_add_card_inter A B
  have hunion : (A ∪ B).card ≤ U.card := card_le_card (union_subset hA hB)
  omega

/-- Voters of whom some may be faulty, with a quorum size that outvotes the faulty ones in every
intersection of two quorums. -/
structure Committee (N : Type*) [DecidableEq N] where
  members : Finset N
  faulty : Finset N
  quorum : ℕ
  faulty_lt : faulty.card < 2 * quorum - members.card

namespace Committee

variable (C : Committee N)

/-- A quorum of members each of whom satisfies `P` unless it is faulty. -/
def Supported (P : N → Prop) : Prop :=
  ∃ Q ⊆ C.members, C.quorum ≤ Q.card ∧ ∀ n ∈ Q, n ∉ C.faulty → P n

variable {C}

/-- Two supported properties share an honest member. -/
lemma Supported.exists_honest {P R : N → Prop} (hP : C.Supported P) (hR : C.Supported R) :
    ∃ n, n ∉ C.faulty ∧ P n ∧ R n := by
  obtain ⟨A, hA, hAcard, hAP⟩ := hP
  obtain ⟨B, hB, hBcard, hBR⟩ := hR
  have hcount := card_add_card_le hA hB
  have hbound := C.faulty_lt
  have hlt : C.faulty.card < (A ∩ B).card := by omega
  obtain ⟨n, hn, hnf⟩ := exists_mem_notMem_of_card_lt_card hlt
  obtain ⟨hnA, hnB⟩ := mem_inter.mp hn
  exact ⟨n, hnf, hAP n hnA hnf, hBR n hnB hnf⟩

end Committee

/-- What is known of a run of locked voting: who prevoted and precommitted what in which round. The
last four fields are the discipline every member that is not faulty follows. -/
structure LockedVoting (C : Committee N) (V : Type*) where
  prevoted : N → ℕ → V → Prop
  precommitted : N → ℕ → V → Prop
  /-- The vote for no value. -/
  nil : V
  prevote_unique : ∀ n ∉ C.faulty, ∀ r v w, prevoted n r v → prevoted n r w → v = w
  precommit_unique : ∀ n ∉ C.faulty, ∀ r v w, precommitted n r v → precommitted n r w → v = w
  precommit_supported : ∀ n ∉ C.faulty, ∀ r v, precommitted n r v → v ≠ nil →
    C.Supported (prevoted · r v)
  prevote_unlocked : ∀ n ∉ C.faulty, ∀ r v s w, precommitted n r v → v ≠ nil →
    prevoted n s w → w ≠ nil → r < s → w ≠ v →
    ∃ t, r ≤ t ∧ t < s ∧ C.Supported (prevoted · t w)

namespace LockedVoting

variable {C : Committee N} (L : LockedVoting C V)

/-- Once a quorum has precommitted `v`, no later round gathers a quorum of prevotes for another
value. The induction is on the later round: the first quorum against `v` would need an honest
member of the locked quorum to have been unlocked by an earlier one. -/
lemma prevote_supported_eq {r : ℕ} {v : V} (hv : v ≠ L.nil)
    (hlock : C.Supported (L.precommitted · r v)) (s : ℕ) (hrs : r ≤ s) (w : V) (hw : w ≠ L.nil)
    (hsup : C.Supported (L.prevoted · s w)) : w = v := by
  induction s using Nat.strong_induction_on with
  | _ s ih =>
    rcases hrs.eq_or_lt with rfl | hlt
    · obtain ⟨n, hn, hpre, -⟩ := hlock.exists_honest hlock
      obtain ⟨m, hm, hmv, hmw⟩ := (L.precommit_supported n hn r v hpre hv).exists_honest hsup
      exact L.prevote_unique m hm r w v hmw hmv
    · obtain ⟨n, hn, hpre, hprev⟩ := hlock.exists_honest hsup
      by_contra hne
      obtain ⟨t, hrt, hts, hsup'⟩ := L.prevote_unlocked n hn r v s w hpre hv hprev hw hlt hne
      exact hne (ih t hts hrt hsup')

/-- Two quorums of precommits name one value. -/
theorem precommit_supported_unique {r s : ℕ} {v w : V} (hv : v ≠ L.nil) (hw : w ≠ L.nil)
    (hrv : C.Supported (L.precommitted · r v)) (hsw : C.Supported (L.precommitted · s w)) :
    v = w := by
  wlog hrs : r ≤ s generalizing r s v w
  · exact (this hw hv hsw hrv (le_of_not_ge hrs)).symm
  obtain ⟨n, hn, hpre, -⟩ := hsw.exists_honest hsw
  have hsup := L.precommit_supported n hn s w hpre hw
  exact (L.prevote_supported_eq hv hrv s hrs w hw hsup).symm

end LockedVoting

end Voting

import Mininet.Chain.Finality

/-!
# Accountability

Two votes of one root in one slot for different blocks convict the root: anyone holding them can
assemble a proof. Two certificates for one slot always contain such pairs, for more than a third of
the validators.
-/

namespace Mininet

open Codec

/-- Two votes of one validator that cannot both be honest, in the order of their block hashes. -/
structure EquivocationProof where
  first : Vote
  second : Vote
  validatorRoot_eq : first.validatorRoot = second.validatorRoot
  slot_eq : first.height = second.height ∧ first.round = second.round ∧ first.kind = second.kind
  blockHash_ne : first.blockHash ≠ second.blockHash
  blockHash_le : first.blockHash.bytes ≤ second.blockHash.bytes

namespace EquivocationProof

def equivocationDomain : Bytes := utf8 "mininet/mini-chain/equivocation-proof/v1"

variable {Kel : Type} [KelOps Kel]

/-- Look up a vote's two logs and verify it. -/
def verifyKnown (oracle : ValidatorOracle Kel) (vote : Vote) : Except ChainError Unit :=
  match oracle vote.validatorRoot with
  | none         => .error .unknownValidator
  | some rootKel =>
    match oracle vote.validatorDevice with
    | none           => .error .unknownValidator
    | some deviceKel => verifyVote vote rootKel deviceKel

/-- Build a proof from two votes, checking that they conflict and that both verify. -/
def assemble (first second : Vote) (oracle : ValidatorOracle Kel) :
    Except ChainError EquivocationProof :=
  if hroot : first.validatorRoot.scid ≠ second.validatorRoot.scid then .error .notAnEquivocation
  else if hslot : first.height ≠ second.height ∨ first.round ≠ second.round ∨
      first.kind ≠ second.kind then .error .notAnEquivocation
  else if hhash : first.blockHash = second.blockHash then .error .notAnEquivocation
  else do
    verifyKnown oracle first
    verifyKnown oracle second
    have root_eq : first.validatorRoot = second.validatorRoot := Did.scid_injective (not_not.mp hroot)
    have slot_eq : first.height = second.height ∧ first.round = second.round ∧
        first.kind = second.kind := by simpa [not_or] using hslot
    if hle : first.blockHash.bytes ≤ second.blockHash.bytes then
      return ⟨first, second, root_eq, slot_eq, hhash, hle⟩
    else
      return ⟨second, first, root_eq.symm, ⟨slot_eq.1.symm, slot_eq.2.1.symm, slot_eq.2.2.symm⟩,
        Ne.symm hhash, (List.le_total _ _).resolve_left hle⟩

/-- The proof's identity: the offender, the slot and the two blocks. -/
def digest [Primitives] (p : EquivocationProof) : Hash :=
  blake3 (equivocationDomain ++ utf8 p.first.validatorRoot.asStr ++ [0] ++ [p.first.kind.toByte] ++
    toBeBytes p.first.height ++ toBeBytes p.first.round ++ p.first.blockHash.bytes ++
    p.second.blockHash.bytes)

end EquivocationProof

/-! ### Conflicting precommits -/

section Conflict

variable {Kel : Type} [KelOps Kel]

/-- Two verifying precommits of one root in one slot for different blocks. -/
structure ConflictingPrecommits (oracle : ValidatorOracle Kel) (height : UInt64) (round : UInt32)
    (root : Did) (v w : Vote) : Prop where
  kind : v.kind = .precommit ∧ w.kind = .precommit
  height : v.height = height ∧ w.height = height
  round : v.round = round ∧ w.round = round
  root : v.validatorRoot = root ∧ w.validatorRoot = root
  blockHash : v.blockHash ≠ w.blockHash
  verifies : verifies oracle v = true ∧ verifies oracle w = true

variable {oracle : ValidatorOracle Kel} {height : UInt64} {round : UInt32} {root : Did}
  {v w : Vote}

lemma ConflictingPrecommits.symm (h : ConflictingPrecommits oracle height round root v w) :
    ConflictingPrecommits oracle height round root w v where
  kind := h.kind.symm
  height := h.height.symm
  round := h.round.symm
  root := h.root.symm
  blockHash := h.blockHash.symm
  verifies := h.verifies.symm

namespace EquivocationProof

lemma verifyKnown_ok : verifyKnown oracle v = .ok () ↔ Mininet.verifies oracle v = true := by
  unfold verifyKnown Mininet.verifies
  cases oracle v.validatorRoot with
  | none => simp
  | some rootKel =>
    cases oracle v.validatorDevice with
    | none => simp
    | some deviceKel =>
      cases h : verifyVote v rootKel deviceKel <;> simp [h, Except.isOk, Except.toBool]

/-- Conflicting precommits assemble, and the proof holds them in the order of their hashes. -/
lemma assemble_of_conflicting (h : ConflictingPrecommits oracle height round root v w) :
    ∃ p, assemble v w oracle = .ok p ∧
      ((v.blockHash.bytes ≤ w.blockHash.bytes ∧ p.first = v ∧ p.second = w) ∨
        (w.blockHash.bytes ≤ v.blockHash.bytes ∧ p.first = w ∧ p.second = v)) := by
  have hv := verifyKnown_ok.mpr h.verifies.1
  have hw := verifyKnown_ok.mpr h.verifies.2
  have hroot : ¬ v.validatorRoot.scid ≠ w.validatorRoot.scid := by simp [h.root.1, h.root.2]
  have hslot : ¬ (v.height ≠ w.height ∨ v.round ≠ w.round ∨ v.kind ≠ w.kind) := by
    simp [h.kind.1, h.kind.2, h.height.1, h.height.2, h.round.1, h.round.2]
  unfold assemble
  rw [dif_neg hroot, dif_neg hslot, dif_neg h.blockHash, hv, hw]
  by_cases hle : v.blockHash.bytes ≤ w.blockHash.bytes
  · refine ⟨_, dif_pos hle, .inl ⟨hle, rfl, rfl⟩⟩
  · refine ⟨_, dif_neg hle, .inr ⟨(List.le_total _ _).resolve_left hle, rfl, rfl⟩⟩

/-- Two observers who saw the votes in opposite orders hold proofs of the same votes. -/
lemma assemble_comm (h : ConflictingPrecommits oracle height round root v w) :
    ∃ p q, assemble v w oracle = .ok p ∧ assemble w v oracle = .ok q ∧
      p.first = q.first ∧ p.second = q.second := by
  obtain ⟨p, hp, hpo⟩ := assemble_of_conflicting h
  obtain ⟨q, hq, hqo⟩ := assemble_of_conflicting h.symm
  refine ⟨p, q, hp, hq, ?_⟩
  have hanti : ¬ (v.blockHash.bytes ≤ w.blockHash.bytes ∧
      w.blockHash.bytes ≤ v.blockHash.bytes) := fun ⟨h₁, h₂⟩ =>
    h.blockHash (Hash.bytes_injective (List.le_antisymm h₁ h₂))
  rcases hpo with ⟨hle, h₁, h₂⟩ | ⟨hle, h₁, h₂⟩ <;> rcases hqo with ⟨hle', h₃, h₄⟩ | ⟨hle', h₃, h₄⟩
  · exact absurd ⟨hle, hle'⟩ hanti
  · exact ⟨h₁.trans h₃.symm, h₂.trans h₄.symm⟩
  · exact ⟨h₁.trans h₃.symm, h₂.trans h₄.symm⟩
  · exact absurd ⟨hle', hle⟩ hanti

end EquivocationProof

/-- The certifying votes of a root in two certificates of one slot conflict. -/
lemma Vote.Certifies.conflicting {qc₁ qc₂ : QuorumCertificate} (hheight : qc₁.height = qc₂.height)
    (hround : qc₁.round = qc₂.round) (hne : qc₁.blockHash ≠ qc₂.blockHash)
    (hv : v.Certifies oracle qc₁) (hw : w.Certifies oracle qc₂)
    (hroot : v.validatorRoot = w.validatorRoot) :
    ConflictingPrecommits oracle qc₁.height qc₁.round w.validatorRoot v w where
  kind := ⟨hv.kind, hw.kind⟩
  height := ⟨hv.height, hw.height.trans hheight.symm⟩
  round := ⟨hv.round, hw.round.trans hround.symm⟩
  root := ⟨hroot, rfl⟩
  blockHash := by rw [hv.blockHash, hw.blockHash]; exact hne
  verifies := ⟨hv.verifies, hw.verifies⟩

/-- **Accountable finality.** Two certificates of one slot for different blocks that both pass
convict at least `2q - n` validators, more than a third of the set: each has conflicting precommits
in the two certificates, and whoever holds conflicting precommits of a root can assemble a proof
with them, with one digest whichever vote comes first. -/
theorem fork_convicts_third [Primitives] (validators : ValidatorSet)
    (oracle : ValidatorOracle Kel) (qc₁ qc₂ : QuorumCertificate)
    (hheight : qc₁.height = qc₂.height) (hround : qc₁.round = qc₂.round)
    (hne : qc₁.blockHash ≠ qc₂.blockHash) (n₁ n₂ : ℕ)
    (h₁ : verifyFinality qc₁ validators oracle = .ok n₁)
    (h₂ : verifyFinality qc₂ validators oracle = .ok n₂) :
    ∃ offenders : Finset Did, 2 * validators.quorumThreshold - validators.len ≤ offenders.card ∧
      validators.len < 3 * offenders.card ∧
      (∀ root ∈ offenders, root ∈ validators.roots ∧ ∃ v ∈ qc₁.votes, ∃ w ∈ qc₂.votes,
        ConflictingPrecommits oracle qc₁.height qc₁.round root v w) ∧
      ∀ root v w, ConflictingPrecommits oracle qc₁.height qc₁.round root v w →
        ∃ p q, EquivocationProof.assemble v w oracle = .ok p ∧
          EquivocationProof.assemble w v oracle = .ok q ∧ p.digest = q.digest := by
  obtain ⟨-, hq₁, A, rfl, hA⟩ := verifyFinality_ok_iff.mp h₁
  obtain ⟨-, hq₂, B, rfl, hB⟩ := verifyFinality_ok_iff.mp h₂
  have hcount := Voting.card_add_card_le (A := A) (B := B) (U := validators.members)
    (fun d hd => ValidatorSet.mem_members.mpr ((hA d).mp hd).1)
    (fun d hd => ValidatorSet.mem_members.mpr ((hB d).mp hd).1)
  rw [ValidatorSet.card_members] at hcount
  have hthird := validators.len_lt_three_mul
  refine ⟨A ∩ B, by omega, by omega, fun root hroot => ?_, fun root v w h => ?_⟩
  · obtain ⟨hmemA, hmemB⟩ := Finset.mem_inter.mp hroot
    obtain ⟨hd, v, hv, hcv, rfl⟩ := (hA root).mp hmemA
    obtain ⟨-, w, hw, hcw, hwroot⟩ := (hB v.validatorRoot).mp hmemB
    exact ⟨hd, v, hv, w, hw, hwroot ▸ hcv.conflicting hheight hround hne hcw hwroot.symm⟩
  · obtain ⟨p, q, hp, hq, hfirst, hsecond⟩ := EquivocationProof.assemble_comm h
    exact ⟨p, q, hp, hq, by simp [EquivocationProof.digest, hfirst, hsecond]⟩

/-- A precommit of the root `scid` with one device and no signatures, at height 1 and round 0. -/
def samplePrecommit (blockHash : Hash) (scid : String) : Vote where
  kind := .precommit
  height := 1
  round := 0
  blockHash := blockHash
  validatorRoot := ⟨scid⟩
  validatorDevice := ⟨scid ++ "-device"⟩
  signature := []

def sampleCertificate (blockHash : Hash) (scids : List String) : QuorumCertificate where
  height := 1
  round := 0
  blockHash := blockHash
  votes := scids.map (samplePrecommit blockHash)

theorem fork_convicts_two_of_four :
    ∃ offenders : Finset Did, 2 ≤ offenders.card ∧ ∀ root ∈ offenders,
      root ∈ ValidatorSet.sample.roots ∧
      ∃ v ∈ (sampleCertificate Hash.zero ["a", "b", "c"]).votes,
      ∃ w ∈ (sampleCertificate (Vector.replicate 32 1) ["b", "c", "d"]).votes,
        ConflictingPrecommits sampleOracle 1 0 root v w := by
  obtain ⟨offenders, hcard, -, hconf, -⟩ := @fork_convicts_third SampleKel _ Primitives.sample
    ValidatorSet.sample sampleOracle (sampleCertificate Hash.zero ["a", "b", "c"])
    (sampleCertificate (Vector.replicate 32 1) ["b", "c", "d"]) rfl rfl (by decide) 3 3 rfl rfl
  exact ⟨offenders, hcard, hconf⟩

end Conflict

end Mininet

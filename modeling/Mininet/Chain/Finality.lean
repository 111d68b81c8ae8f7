import Mininet.Chain.Vote
import Mininet.Lib.Voting

/-!
# Validator sets and finality

A validator set is a sorted list of distinct identity roots, one equal vote each. A quorum
certificate is final when precommits of more than two thirds of the roots re-verify for it;
`verifyFinality` counts roots and not votes, so duplicates, other phases and several devices of one
root do not add up.
-/

namespace Mininet

open List

/-! ### Validator sets -/

/-- Hard cap on the size of a validator set. -/
def maxValidators : ℕ := 10000

structure ValidatorSet where
  roots : List Did
  nodup : roots.Nodup
  nonempty : roots ≠ []
  length_le : roots.length ≤ maxValidators

namespace ValidatorSet

/-- Build a validator set, canonically sorted by the identifiers' strings. -/
def new (roots : List Did) : Except ChainError ValidatorSet :=
  if hne : roots = [] then .error .emptyValidatorSet
  else if hlen : maxValidators < roots.length then .error .limitExceeded
  else
    let sorted := roots.insertionSort fun a b => a.asStr ≤ b.asStr
    if hdup : sorted.Nodup then
      .ok ⟨sorted, hdup, by simpa [sorted, ← length_eq_zero_iff] using hne,
        by simpa [sorted] using hlen⟩
    else .error .duplicateValidator

def len (vs : ValidatorSet) : ℕ := vs.roots.length

def contains (vs : ValidatorSet) (root : Did) : Bool := vs.roots.any fun r => r.scid == root.scid

/-- Strictly more than two thirds of the set. -/
def quorumThreshold (vs : ValidatorSet) : ℕ := 2 * vs.len / 3 + 1

/-- The set of roots, for counting. -/
def members (vs : ValidatorSet) : Finset Did := vs.roots.toFinset

variable {vs : ValidatorSet} {d : Did}

@[simp] lemma mem_members : d ∈ vs.members ↔ d ∈ vs.roots := mem_toFinset

@[simp] lemma card_members (vs : ValidatorSet) : vs.members.card = vs.len :=
  toFinset_card_of_nodup vs.nodup

@[simp] lemma contains_true : vs.contains d = true ↔ d ∈ vs.roots := by
  simp only [contains, any_eq_true, beq_iff_eq]
  exact ⟨fun ⟨r, hr, h⟩ => Did.scid_injective h ▸ hr, fun h => ⟨d, h, rfl⟩⟩

lemma len_lt_three_mul (vs : ValidatorSet) : vs.len < 3 * (2 * vs.quorumThreshold - vs.len) := by
  unfold quorumThreshold
  omega

/-- Four validators, of whom one may be faulty. -/
def sample : ValidatorSet where
  roots := [⟨"a"⟩, ⟨"b"⟩, ⟨"c"⟩, ⟨"d"⟩]
  nodup := by decide
  nonempty := by decide
  length_le := by decide

end ValidatorSet

/-! ### Quorum certificates -/

/-- Hard cap on the votes of one certificate. -/
def maxVotesPerCertificate : ℕ := 4 * maxValidators

/-- A block hash with the votes offered as evidence that it is final. -/
structure QuorumCertificate where
  height : UInt64
  round : UInt32
  blockHash : Hash
  votes : List Vote
  deriving DecidableEq

section Verify

variable {Kel : Type} [KelOps Kel]

/-- One vote's effect on the set of roots counted so far. -/
def countVote (qc : QuorumCertificate) (validators : ValidatorSet) (oracle : ValidatorOracle Kel)
    (counted : Finset Did) (vote : Vote) : Finset Did :=
  if vote.kind ≠ .precommit then counted
  else if vote.height ≠ qc.height ∨ vote.round ≠ qc.round ∨ vote.blockHash ≠ qc.blockHash then
    counted
  else if !validators.contains vote.validatorRoot then counted
  else if vote.validatorRoot ∈ counted then counted
  else
    match oracle vote.validatorRoot, oracle vote.validatorDevice with
    | some rootKel, some deviceKel =>
      match verifyVote vote rootKel deviceKel with
      | .ok _    => insert vote.validatorRoot counted
      | .error _ => counted
    | _, _ => counted

/-- Verify a certificate against the current validator set; the result is the number of distinct
roots counted. -/
def verifyFinality (qc : QuorumCertificate) (validators : ValidatorSet)
    (oracle : ValidatorOracle Kel) : Except ChainError ℕ :=
  if maxVotesPerCertificate < qc.votes.length then .error .limitExceeded
  else
    let counted := qc.votes.foldl (countVote qc validators oracle) ∅
    let needed := validators.quorumThreshold
    if counted.card < needed then .error (.quorumNotMet needed counted.card)
    else .ok counted.card

/-- A vote that is evidence for a certificate. -/
structure Vote.Certifies (oracle : ValidatorOracle Kel) (qc : QuorumCertificate) (vote : Vote) :
    Prop where
  kind : vote.kind = .precommit
  height : vote.height = qc.height
  round : vote.round = qc.round
  blockHash : vote.blockHash = qc.blockHash
  verifies : verifies oracle vote = true

variable {qc : QuorumCertificate} {validators : ValidatorSet} {oracle : ValidatorOracle Kel}

/-- The count after one vote: its root is added exactly when it certifies and is a validator. -/
lemma mem_countVote {counted : Finset Did} {vote : Vote} {d : Did} :
    d ∈ countVote qc validators oracle counted vote ↔
      d ∈ counted ∨ (vote.Certifies oracle qc ∧ d ∈ validators.roots ∧ vote.validatorRoot = d) := by
  constructor
  · intro h
    unfold countVote at h
    split_ifs at h with hkind hslot hroot hmem
    · exact .inl h
    · exact .inl h
    · exact .inl h
    · exact .inl h
    · obtain ⟨hh, hr, hb⟩ : vote.height = qc.height ∧ vote.round = qc.round ∧
          vote.blockHash = qc.blockHash := by simpa [not_or] using hslot
      split at h
      · next rootKel deviceKel hrootKel hdevKel =>
        split at h
        · next hok =>
          rcases Finset.mem_insert.mp h with rfl | hd
          · refine .inr ⟨⟨by simpa using hkind, hh, hr, hb, ?_⟩, by simpa using hroot, rfl⟩
            simp [verifies, hrootKel, hdevKel, hok, Except.isOk, Except.toBool]
          · exact .inl hd
        · exact .inl h
      · exact .inl h
  · rintro (h | ⟨hc, hd, rfl⟩)
    · unfold countVote
      split_ifs <;> try exact h
      split
      · split
        · exact Finset.mem_insert_of_mem h
        · exact h
      · exact h
    · have hv := hc.verifies
      have hroot := ValidatorSet.contains_true.mpr hd
      unfold countVote
      by_cases hmem : vote.validatorRoot ∈ counted
      · simp [hc.kind, hc.height, hc.round, hc.blockHash, hmem]
      · unfold verifies at hv
        split at hv
        · next rootKel deviceKel hrootKel hdevKel =>
          cases hok : verifyVote vote rootKel deviceKel with
          | ok _ =>
            simp [hc.kind, hc.height, hc.round, hc.blockHash, hroot, hmem, hrootKel, hdevKel, hok]
          | error e => simp [hok, Except.isOk, Except.toBool] at hv
        · cases hv

/-- The roots counted over a whole list of votes. -/
lemma mem_foldl_countVote (votes : List Vote) (counted : Finset Did) (d : Did) :
    d ∈ votes.foldl (countVote qc validators oracle) counted ↔
      d ∈ counted ∨ (d ∈ validators.roots ∧
        ∃ vote ∈ votes, vote.Certifies oracle qc ∧ vote.validatorRoot = d) := by
  induction votes generalizing counted with
  | nil => simp
  | cons vote votes ih =>
    rw [foldl_cons, ih, mem_countVote]
    simp only [exists_mem_cons_iff]
    tauto

/-- A certificate passes exactly when it is within the vote cap and more than two thirds of the
validator roots have a certifying vote in it. -/
lemma verifyFinality_ok_iff {n : ℕ} :
    verifyFinality qc validators oracle = .ok n ↔
      qc.votes.length ≤ maxVotesPerCertificate ∧ validators.quorumThreshold ≤ n ∧
      ∃ counted : Finset Did, counted.card = n ∧ ∀ d, d ∈ counted ↔
        d ∈ validators.roots ∧ ∃ vote ∈ qc.votes, vote.Certifies oracle qc ∧
          vote.validatorRoot = d := by
  have hmem : ∀ d, d ∈ qc.votes.foldl (countVote qc validators oracle) ∅ ↔
      d ∈ validators.roots ∧ ∃ vote ∈ qc.votes, vote.Certifies oracle qc ∧
        vote.validatorRoot = d := fun d => by simp [mem_foldl_countVote]
  constructor
  · intro h
    simp only [verifyFinality] at h
    split_ifs at h with hlen hcard
    cases h
    exact ⟨not_lt.mp hlen, not_lt.mp hcard, _, rfl, hmem⟩
  · rintro ⟨hlen, hq, counted, rfl, hcounted⟩
    have heq : qc.votes.foldl (countVote qc validators oracle) ∅ = counted :=
      Finset.ext fun d => (hmem d).trans (hcounted d).symm
    simp [verifyFinality, heq, not_lt.mpr hlen, not_lt.mpr hq]

end Verify

end Mininet

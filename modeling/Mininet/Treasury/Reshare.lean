import Mininet.Treasury.Sign

/-!
# Resharing to a new committee

`frost_reshare`: old participants share their weighted shares, which add up to the old secret, with
a new committee. The new key is shared by polynomials of the new degree and has the old group key.
-/

namespace Mininet.Treasury

open Codec Draws Fallible Interpolation TreeMaps List
open Std (ExtTreeMap)

variable {F M : Type} [Field F] [DecidableEq F] [AddCommGroup M] [Module F M] [ScalarPrimitives F]
  [PointPrimitives M]

def reshareRound1 (oldKeyPackage : KeyPackage F M) (oldParticipatingIndices newCommittee : List UInt16)
    (newThreshold : UInt16) (context : Bytes) :
    Drawing F TreasuryError (DkgRound1Secret F × DkgRound1Package F M) := do
  let newN := UInt16.ofNat newCommittee.length
  let allowedRecipients := newCommittee.toFinset
  check (failIf (newCommittee = [] ∨ 0 ∈ newCommittee ∨
    allowedRecipients.card ≠ newCommittee.length ∨ newN > maxParticipants ∨ newThreshold = 0 ∨
    newThreshold > newN ∨ oldParticipatingIndices = [] ∨
    oldKeyPackage.index ∉ oldParticipatingIndices) .invalidFrostParameters)
  let lambda := lagrangeCoefficient (indexScalar oldKeyPackage.index)
    (oldParticipatingIndices.map indexScalar)
  let contribution := lambda * oldKeyPackage.secretShare
  let drawn ← drawMany .entropy (newThreshold.toNat - 1)
  let package ← announce oldKeyPackage.index (contribution :: drawn) context
  pure (⟨contribution :: drawn, allowedRecipients⟩, package)

/-- Besides what round one checks, the constant term must be the sender's weighted verifying
share. -/
def verifyReshareRound1Package (package : DkgRound1Package F M) (newThreshold : UInt16)
    (context : Bytes) (oldPublicKeyPackage : PublicKeyPackage M)
    (oldParticipatingIndices : List UInt16) : Except TreasuryError Unit := do
  verifyRound1Package package newThreshold context
  let y ← okOr oldPublicKeyPackage.verifyingShares[package.index]? .invalidFrostParticipant
  let lambda : F := lagrangeCoefficient (indexScalar package.index)
    (oldParticipatingIndices.map indexScalar)
  failIf (compress (package.commitments.headD 0) ≠ compress (lambda • y))
    .reshareInvalidContribution

def reshareFinalize (newIndex : UInt16) (round1Packages : ExtTreeMap UInt16 (DkgRound1Package F M))
    (receivedShares : ExtTreeMap UInt16 F) (excluded : Finset UInt16)
    (newCommitteeIndices : List UInt16) (newThreshold : UInt16)
    (oldPublicKeyPackage : PublicKeyPackage M) :
    Except TreasuryError (KeyPackage F M × PublicKeyPackage M) := do
  failIf (newIndex ∉ newCommitteeIndices) .invalidFrostParticipant
  let included := includedSenders round1Packages excluded
  failIf (included.length < newThreshold.toNat) .notEnoughSigners
  let secretShare ← sumOfShares included fun j => receivedShares[j]?
  failIf (compress (sumOfConstants round1Packages included) ≠
    compress oldPublicKeyPackage.groupPublicKey) .reshareGroupKeyMismatch
  let publicKey := sumOfPackages (F := F) round1Packages included newCommitteeIndices
  pure (⟨newIndex, secretShare, publicKey.groupPublicKey⟩, publicKey)

/-! ### What each step comes to -/

variable {newThreshold : UInt16} {package : DkgRound1Package F M} {context : Bytes}

lemma of_reshareRound1 {old : KeyPackage F M} {oldIndices newCommittee : List UInt16}
    {draws rest : List F} {secret : DkgRound1Secret F}
    (h : reshareRound1 old oldIndices newCommittee newThreshold context draws =
      .ok ((secret, package), rest)) :
    (newCommittee ≠ [] ∧ 0 ∉ newCommittee ∧ newCommittee.Nodup ∧ newThreshold ≠ 0) ∧
      secret.allowedRecipients = newCommittee.toFinset ∧
      secret.coefficients.length = newThreshold.toNat ∧
      secret.coefficients.headD 0 = lagrangeCoefficient (indexScalar old.index)
        (oldIndices.map indexScalar) * old.secretShare ∧
      ∃ mid rest', announce old.index secret.coefficients context mid = .ok (package, rest') := by
  obtain ⟨⟨⟩, hparameters, hround⟩ := check_bind_ok.mp h
  obtain ⟨drawn, mid, hdrawn, hrest⟩ := Draws.bind_ok.mp hround
  obtain ⟨announced, mid', hannounce, hpair⟩ := Draws.bind_ok.mp hrest
  obtain ⟨heq, -⟩ := Draws.pure_ok.mp hpair
  obtain ⟨rfl, rfl⟩ := Prod.mk.inj heq
  simp only [failIf_ok, not_or, not_not] at hparameters
  obtain ⟨hne, hzero, hcard, -, hthreshold, -⟩ := hparameters
  have hpos : 0 < newThreshold.toNat :=
    Nat.pos_of_ne_zero fun h => hthreshold (UInt16.toNat_inj.mp h)
  have hnodup : newCommittee.Nodup :=
    Multiset.coe_nodup.mp (Multiset.toFinset_card_eq_card_iff_nodup.mp hcard)
  refine ⟨⟨hne, hzero, hnodup, hthreshold⟩, rfl, ?_, rfl, mid, mid', hannounce⟩
  rw [length_cons, (drawMany_ok.mp hdrawn).1]
  omega

/-- A package that passes has the right constant term. -/
lemma constant_of_verifyReshareRound1Package [LawfulCurve F M] {oldKey : PublicKeyPackage M}
    {oldIndices : List UInt16}
    (h : verifyReshareRound1Package package newThreshold context oldKey oldIndices = .ok ()) :
    ∃ y, oldKey.verifyingShares[package.index]? = some y ∧
      package.commitments.headD 0 = (lagrangeCoefficient (indexScalar package.index)
        (oldIndices.map indexScalar) : F) • y := by
  obtain ⟨⟨⟩, -, h⟩ := Fallible.bind_ok.mp h
  obtain ⟨y, hy, h⟩ := Fallible.bind_ok.mp h
  exact ⟨y, okOr_ok.mp hy, compress_injective F (not_not.mp (failIf_ok.mp h))⟩

omit [DecidableEq F] [ScalarPrimitives F] in
lemma reshareFinalize_ok [LawfulCurve F M] {newIndex : UInt16}
    {packages : ExtTreeMap UInt16 (DkgRound1Package F M)} {received : ExtTreeMap UInt16 F}
    {excluded : Finset UInt16} {newCommittee : List UInt16} {oldKey newKey : PublicKeyPackage M}
    {key : KeyPackage F M} :
    reshareFinalize newIndex packages received excluded newCommittee newThreshold oldKey =
        .ok (key, newKey) ↔
      newIndex ∈ newCommittee ∧ newThreshold.toNat ≤ (includedSenders packages excluded).length ∧
      (∀ j ∈ includedSenders packages excluded, (received[j]?).isSome) ∧
      sumOfConstants packages (includedSenders packages excluded) = oldKey.groupPublicKey ∧
      newKey = sumOfPackages (F := F) packages (includedSenders packages excluded) newCommittee ∧
      key = ⟨newIndex, ((includedSenders packages excluded).map fun j => (received[j]?).getD 0).sum,
        newKey.groupPublicKey⟩ := by
  rw [reshareFinalize, failIf_bind_ok, failIf_bind_ok, Fallible.bind_ok]
  simp only [sumOfShares_ok, failIf_bind_ok, Fallible.pure_ok, Prod.mk.injEq, not_not,
    Nat.not_lt, (compress_injective F).eq_iff]
  constructor
  · rintro ⟨hmem, henough, total, ⟨hall, rfl⟩, hgroup, rfl, rfl⟩
    exact ⟨hmem, henough, hall, hgroup, rfl, rfl⟩
  · rintro ⟨hmem, henough, hall, hgroup, rfl, rfl⟩
    exact ⟨hmem, henough, _, ⟨hall, rfl⟩, hgroup, rfl, rfl⟩

/-! ### A resharing in which all follow the protocol -/

/-- A key shared below a threshold, at least that many old participants, and what each of them
announced to one and the same new committee. -/
structure Resharing (F M : Type) [Field F] [DecidableEq F] [AddCommGroup M] [Module F M]
    [ScalarPrimitives F] [PointPrimitives M] where
  oldThreshold : ℕ
  oldKey : PublicKeyPackage M
  old : List (KeyPackage F M)
  newCommittee : List UInt16
  newThreshold : UInt16
  context : Bytes
  announced : KeyPackage F M → DkgRound1Secret F × DkgRound1Package F M
  oldThreshold_pos : 0 < oldThreshold
  shared : oldKey.SharedBelow F oldThreshold
  fits : ∀ k ∈ old, k.Fits oldKey
  enough : oldThreshold ≤ old.length
  distinct_old : (old.map fun k => (indexScalar k.index : F)).Nodup
  distinct_new : (newCommittee.map (indexScalar : UInt16 → F)).Nodup
  round1 : ∀ k ∈ old, ∃ draws rest, reshareRound1 k (old.map KeyPackage.index) newCommittee
    newThreshold context draws = .ok (announced k, rest)

namespace Resharing

variable {r : Resharing F M} {k : KeyPackage F M}

/-- The packages of all old participants. -/
def packages (r : Resharing F M) : ExtTreeMap UInt16 (DkgRound1Package F M) :=
  insertAll ∅ (r.old.map fun k => (k.index, (r.announced k).2))

/-- The new members got the shares that the old participants generated for them. -/
def Delivered (r : Resharing F M) (received : UInt16 → ExtTreeMap UInt16 F) : Prop :=
  ∀ i ∈ r.newCommittee, ∀ k ∈ r.old, ∀ shares,
    dkgGenerateRound2Shares (r.announced k).1 r.newCommittee = .ok shares →
      (received i)[k.index]? = shares[i]?

lemma old_ne_nil (r : Resharing F M) : r.old ≠ [] := by
  intro h
  have henough := r.enough
  rw [h, length_nil] at henough
  exact absurd r.oldThreshold_pos (by omega)

lemma nodup_index (r : Resharing F M) : (r.old.map KeyPackage.index).Nodup := by
  have hdistinct := r.distinct_old
  rw [show (r.old.map fun k => (indexScalar k.index : F)) =
    (r.old.map KeyPackage.index).map indexScalar by rw [map_map]; rfl] at hdistinct
  exact hdistinct.of_map _

/-- What round one gave, whoever of the old participants one asks. -/
lemma committee (r : Resharing F M) :
    r.newCommittee ≠ [] ∧ 0 ∉ r.newCommittee ∧ r.newCommittee.Nodup ∧ r.newThreshold ≠ 0 := by
  obtain ⟨k, hk⟩ := exists_mem_of_ne_nil _ r.old_ne_nil
  obtain ⟨draws, rest, hround⟩ := r.round1 k hk
  exact (of_reshareRound1 hround).1

lemma threshold_pos (r : Resharing F M) : 0 < r.newThreshold.toNat :=
  Nat.pos_of_ne_zero fun h => r.committee.2.2.2 (UInt16.toNat_inj.mp h)

lemma commitments_eq (hk : k ∈ r.old) : (r.announced k).2.commitments =
    (r.announced k).1.coefficients.map fun c => c • (basepoint : M) := by
  obtain ⟨draws, rest, hround⟩ := r.round1 k hk
  obtain ⟨-, -, -, -, mid, rest', hannounce⟩ := of_reshareRound1 hround
  exact (of_announce hannounce).2

lemma toList_packages_perm (r : Resharing F M) :
    r.packages.toList.Perm (r.old.map fun k => (k.index, (r.announced k).2)) :=
  toList_insertAll_empty_perm (by rw [map_map]; exact r.nodup_index)

lemma getElem?_packages (hk : k ∈ r.old) : r.packages[k.index]? = some (r.announced k).2 :=
  mem_toList.mp (r.toList_packages_perm.mem_iff.mpr (mem_map.mpr ⟨k, hk, rfl⟩))

lemma commitmentsOf_packages (hk : k ∈ r.old) : commitmentsOf r.packages k.index =
    (r.announced k).1.coefficients.map fun c => c • (basepoint : M) := by
  rw [commitmentsOf, getElem?_packages hk, Option.elim_some, commitments_eq hk]

/-- Nobody is left out. -/
lemma includedSenders_perm (r : Resharing F M) :
    (includedSenders r.packages ∅).Perm (r.old.map KeyPackage.index) := by
  have hall : includedSenders r.packages ∅ = r.packages.keys := by simp [includedSenders]
  have hfst := r.toList_packages_perm.map Prod.fst
  rw [ExtTreeMap.map_fst_toList_eq_keys, map_map] at hfst
  rw [hall]
  exact hfst

lemma sum_includedSenders {N : Type} [AddCommMonoid N] (f : UInt16 → N) :
    ((includedSenders r.packages ∅).map f).sum = (r.old.map fun k => f k.index).sum := by
  rw [(r.includedSenders_perm.map f).sum_eq, map_map]
  rfl

/-- The weight of an old participant among those that take part. -/
def weightOf (r : Resharing F M) (k : KeyPackage F M) : F :=
  lagrangeCoefficient (indexScalar k.index) (r.old.map fun k => indexScalar k.index)

/-- The secret the old participants' shares interpolate to. -/
def secret (r : Resharing F M) : F := (r.old.map fun k => r.weightOf k * k.secretShare).sum

lemma secret_smul_basepoint (r : Resharing F M) :
    r.secret • (basepoint : M) = r.oldKey.groupPublicKey :=
  r.shared.sum_lagrange_smul r.oldThreshold_pos r.distinct_old r.enough r.fits

lemma constant_eq (hk : k ∈ r.old) :
    (r.announced k).1.coefficients.headD 0 = r.weightOf k * k.secretShare := by
  obtain ⟨draws, rest, hround⟩ := r.round1 k hk
  obtain ⟨-, -, -, hconstant, -⟩ := of_reshareRound1 hround
  rw [hconstant, map_map]
  rfl

lemma length_coefficients (hk : k ∈ r.old) :
    (r.announced k).1.coefficients.length = r.newThreshold.toNat := by
  obtain ⟨draws, rest, hround⟩ := r.round1 k hk
  exact (of_reshareRound1 hround).2.2.1

/-- The constant terms add up to the old group key. -/
lemma sumOfConstants_packages (r : Resharing F M) :
    sumOfConstants r.packages (includedSenders r.packages ∅) = r.oldKey.groupPublicKey := by
  rw [sumOfConstants, sum_includedSenders, ← r.secret_smul_basepoint, secret, sum_smul, map_map]
  refine congrArg List.sum (map_congr_left fun k hk => ?_)
  rw [commitmentsOf_packages hk, headD_map_smul_basepoint, constant_eq hk, Function.comp_apply]

lemma verify_announced [LawfulCurve F M] (hk : k ∈ r.old) :
    verifyReshareRound1Package (r.announced k).2 r.newThreshold r.context r.oldKey
      (r.old.map KeyPackage.index) = .ok () := by
  obtain ⟨draws, rest, hround⟩ := r.round1 k hk
  obtain ⟨-, -, -, -, mid, rest', hannounce⟩ := of_reshareRound1 hround
  have hindex := (of_announce hannounce).1
  have hlength : (r.announced k).2.commitments.length = r.newThreshold.toNat := by
    rw [commitments_eq hk, length_map, length_coefficients hk]
  have hround1 : verifyRound1Package (r.announced k).2 r.newThreshold r.context = .ok () :=
    failIf_bind_ok.mpr ⟨not_not.mpr hlength,
      failIf_ok.mpr (by rw [verifyKnowledge_of_announce hannounce]; simp)⟩
  refine Fallible.bind_ok.mpr ⟨(), hround1, Fallible.bind_ok.mpr
    ⟨k.secretShare • basepoint, okOr_ok.mpr (hindex ▸ (r.fits k hk).share),
      failIf_ok.mpr (not_not.mpr (congrArg compress ?_))⟩⟩
  rw [commitments_eq hk, headD_map_smul_basepoint, constant_eq hk, mul_smul, hindex, map_map]
  rfl

/-- Round two has a share for every new member. -/
lemma exists_shares (hk : k ∈ r.old) :
    ∃ shares, dkgGenerateRound2Shares (r.announced k).1 r.newCommittee = .ok shares ∧
      ∀ i ∈ r.newCommittee, shares[i]? =
        some (evalPolynomial (r.announced k).1.coefficients (indexScalar i)) := by
  obtain ⟨draws, rest, hround⟩ := r.round1 k hk
  obtain ⟨⟨-, hzero, hnodup, -⟩, hallowed, -⟩ := of_reshareRound1 hround
  have hdistinct : checkDistinct (fun j => failIf (j = 0 ∨ j ∉ (r.announced k).1.allowedRecipients)
      TreasuryError.invalidFrostParticipant) .invalidFrostParticipant [] r.newCommittee =
        .ok () := by
    refine checkDistinct_ok.mpr ⟨fun j hj => failIf_ok.mpr ?_, hnodup⟩
    rw [hallowed, mem_toFinset, not_or, not_not]
    exact ⟨fun h => hzero (h ▸ hj), hj⟩
  refine ⟨_, Fallible.bind_ok.mpr ⟨(), hdistinct, rfl⟩, fun i hi => ?_⟩
  rw [getElem?_insertAll_map _ _
    (fun j => evalPolynomial (r.announced k).1.coefficients (indexScalar j)), if_pos hi]

/-- The key of the new committee. -/
def newKey (r : Resharing F M) : PublicKeyPackage M :=
  sumOfPackages (F := F) r.packages (includedSenders r.packages ∅) r.newCommittee

lemma sharedBelow_newKey (r : Resharing F M) : r.newKey.SharedBelow F r.newThreshold.toNat := by
  refine sharedBelow_sumOfPackages fun j hj => ?_
  obtain ⟨k, hk, rfl⟩ := mem_map.mp (r.includedSenders_perm.mem_iff.mp hj)
  rw [commitmentsOf_packages hk, length_map, length_coefficients hk]

section Delivered

variable {received : UInt16 → ExtTreeMap UInt16 F} {i : UInt16}

/-- The share a new member gets from an old participant. -/
lemma getElem?_received (hdelivered : r.Delivered received) (hi : i ∈ r.newCommittee)
    (hk : k ∈ r.old) : (received i)[k.index]? =
      some (evalPolynomial (r.announced k).1.coefficients (indexScalar i)) := by
  obtain ⟨shares, hshares, hvalues⟩ := exists_shares hk
  rw [hdelivered i hi k hk shares hshares, hvalues i hi]

lemma delivered_of_values (h : ∀ i ∈ r.newCommittee, ∀ k ∈ r.old, (received i)[k.index]? =
    some (evalPolynomial (r.announced k).1.coefficients (indexScalar i))) :
    r.Delivered received := by
  intro i hi k hk shares hshares
  obtain ⟨shares', hshares', hvalues⟩ := exists_shares hk
  obtain rfl := Except.ok.inj (hshares.symm.trans hshares')
  rw [h i hi k hk, hvalues i hi]

/-- What a new member computes. -/
def newMember (r : Resharing F M) (received : UInt16 → ExtTreeMap UInt16 F) (i : UInt16) :
    KeyPackage F M :=
  ⟨i, ((includedSenders r.packages ∅).map fun j => ((received i)[j]?).getD 0).sum,
    r.newKey.groupPublicKey⟩

lemma fits_newMember (hdelivered : r.Delivered received) (hi : i ∈ r.newCommittee) :
    (r.newMember received i).Fits r.newKey := by
  refine ⟨?_, rfl⟩
  rw [newKey, getElem?_verifyingShares]
  refine (if_pos hi).trans (congrArg some (sum_smul_basepoint fun j hj => ?_).symm)
  obtain ⟨k, hk, rfl⟩ := mem_map.mp (r.includedSenders_perm.mem_iff.mp hj)
  rw [getElem?_received hdelivered hi hk, Option.getD_some, commitmentsOf_packages hk,
    evalPolynomial_smul_basepoint]
  rfl

/-- A new member finalizes if and only if there are as many old participants as the new threshold
says. -/
lemma reshareFinalize_iff [LawfulCurve F M] (hdelivered : r.Delivered received)
    (hi : i ∈ r.newCommittee) {key : KeyPackage F M} {publicKey : PublicKeyPackage M} :
    reshareFinalize i r.packages (received i) ∅ r.newCommittee r.newThreshold r.oldKey =
        .ok (key, publicKey) ↔
      r.newThreshold.toNat ≤ r.old.length ∧ publicKey = r.newKey ∧
        key = r.newMember received i := by
  have hreceived : ∀ j ∈ includedSenders r.packages ∅, ((received i)[j]?).isSome := by
    intro j hj
    obtain ⟨k, hk, rfl⟩ := mem_map.mp (r.includedSenders_perm.mem_iff.mp hj)
    rw [getElem?_received hdelivered hi hk]
    rfl
  rw [reshareFinalize_ok, r.includedSenders_perm.length_eq, length_map]
  constructor
  · rintro ⟨-, henough, -, -, rfl, rfl⟩
    exact ⟨henough, rfl, rfl⟩
  · rintro ⟨henough, rfl, rfl⟩
    exact ⟨hi, henough, hreceived, r.sumOfConstants_packages, rfl, rfl⟩

/-- Any new threshold of new members holds the old secret. -/
lemma sum_newMembers [LawfulCurve F M] (hdelivered : r.Delivered received) {members : List UInt16}
    (hmembers : ∀ i ∈ members, i ∈ r.newCommittee) (hnodup : members.Nodup)
    (henough : r.newThreshold.toNat ≤ members.length) :
    (members.map fun i => lagrangeCoefficient (indexScalar i) (members.map indexScalar) *
      (r.newMember received i).secretShare).sum = r.secret := by
  have hdistinct : (members.map (indexScalar : UInt16 → F)).Nodup :=
    List.Nodup.map_on (fun i hi j hj heq =>
      inj_on_of_nodup_map r.distinct_new (hmembers i hi) (hmembers j hj) heq) hnodup
  have hfits : ∀ key ∈ members.map (r.newMember received), key.Fits r.newKey := by
    intro key hkey
    obtain ⟨i, hi, rfl⟩ := mem_map.mp hkey
    exact fits_newMember hdelivered (hmembers i hi)
  have hsum := r.sharedBelow_newKey.sum_lagrange_smul r.threshold_pos
    (by rw [map_map]; exact hdistinct) (by rwa [length_map]) hfits
  have hgroup : r.newKey.groupPublicKey = r.oldKey.groupPublicKey := r.sumOfConstants_packages
  rw [map_map, map_map, hgroup, ← r.secret_smul_basepoint] at hsum
  exact LawfulCurve.smul_basepoint_injective hsum

end Delivered

/-- When all old participants that take part follow the protocol, every package passes, and the new
committee finalizes one key, with the old group key and shares that interpolate to the old secret,
if and only if at least as many old participants take part as the new threshold says. A package
with a wrong constant term does not pass, and what is finalized has the old group key, whatever it
is made of. -/
theorem reshare_keeps_key_iff [LawfulCurve F M] (r : Resharing F M)
    (received : UInt16 → ExtTreeMap UInt16 F) (hdelivered : r.Delivered received) :
    (∀ k ∈ r.old, verifyReshareRound1Package (r.announced k).2 r.newThreshold r.context r.oldKey
      (r.old.map KeyPackage.index) = .ok () ∧
      ∃ shares, dkgGenerateRound2Shares (r.announced k).1 r.newCommittee = .ok shares) ∧
    ((∃ (newKey : PublicKeyPackage M) (member : UInt16 → KeyPackage F M),
      (∀ i ∈ r.newCommittee, reshareFinalize i r.packages (received i) ∅ r.newCommittee
        r.newThreshold r.oldKey = .ok (member i, newKey)) ∧
      newKey.groupPublicKey = r.oldKey.groupPublicKey ∧
      ∀ members : List UInt16, (∀ i ∈ members, i ∈ r.newCommittee) → members.Nodup →
        r.newThreshold.toNat ≤ members.length →
        (members.map fun i => lagrangeCoefficient (indexScalar i) (members.map indexScalar) *
          (member i).secretShare).sum =
        (r.old.map fun k => lagrangeCoefficient (indexScalar k.index)
          (r.old.map fun k => indexScalar k.index) * k.secretShare).sum) ↔
      r.newThreshold.toNat ≤ r.old.length) ∧
    (∀ package : DkgRound1Package F M, verifyReshareRound1Package package r.newThreshold r.context
      r.oldKey (r.old.map KeyPackage.index) = .ok () →
      ∃ y, r.oldKey.verifyingShares[package.index]? = some y ∧
        package.commitments.headD 0 = (lagrangeCoefficient (indexScalar package.index)
          ((r.old.map KeyPackage.index).map indexScalar) : F) • y) ∧
    ∀ (i : UInt16) (packages : ExtTreeMap UInt16 (DkgRound1Package F M))
      (shares : ExtTreeMap UInt16 F) (excluded : Finset UInt16) (key : KeyPackage F M)
      (newKey : PublicKeyPackage M), reshareFinalize i packages shares excluded r.newCommittee
        r.newThreshold r.oldKey = .ok (key, newKey) →
      newKey.groupPublicKey = r.oldKey.groupPublicKey := by
  refine ⟨fun k hk => ⟨verify_announced hk, ?_⟩, ⟨?_, fun henough => ?_⟩,
    fun package hpackage => constant_of_verifyReshareRound1Package hpackage,
    fun i packages shares excluded key newKey h => ?_⟩
  · obtain ⟨shares, hshares, -⟩ := exists_shares hk
    exact ⟨shares, hshares⟩
  · rintro ⟨newKey, member, hfinalize, -⟩
    obtain ⟨i, hi⟩ := exists_mem_of_ne_nil _ r.committee.1
    exact ((reshareFinalize_iff hdelivered hi).mp (hfinalize i hi)).1
  · exact ⟨r.newKey, r.newMember received,
      fun i hi => (reshareFinalize_iff hdelivered hi).mpr ⟨henough, rfl, rfl⟩,
      r.sumOfConstants_packages,
      fun members hmembers hnodup hlength => sum_newMembers hdelivered hmembers hnodup hlength⟩
  · obtain ⟨-, -, -, hgroup, rfl, -⟩ := reshareFinalize_ok.mp h
    exact hgroup

end Resharing

/-! A key dealt to one participant, who reshares it to a committee of two. -/

lemma sample_dealt :
    let := PointPrimitives.sample
    trustedDealerKeygen 1 1 [(5 : ZMod 101)] =
      .ok (([⟨1, 5, 5⟩], ⟨(5 : ZMod 101), insertAll ∅ [(1, 5)]⟩), []) := rfl

/-- The resharing with a new threshold and what is announced for it. -/
@[reducible] def sampleResharing (newThreshold : UInt16) (coefficients draws : List (ZMod 101))
    (h : @reshareRound1 (ZMod 101) (ZMod 101) _ _ _ _ .sample .sample ⟨1, 5, 5⟩ [1] [1, 2]
      newThreshold [] draws = .ok ((⟨coefficients, {1, 2}⟩,
        ⟨1, coefficients, ⟨Hash.ofBytes [7], 19⟩⟩), [])) :
    @Resharing (ZMod 101) (ZMod 101) _ _ _ _ .sample .sample :=
  letI := ScalarPrimitives.sample
  letI := PointPrimitives.sample
  { oldThreshold := 1
    oldKey := ⟨5, insertAll ∅ [(1, 5)]⟩
    old := [⟨1, 5, 5⟩]
    newCommittee := [1, 2]
    newThreshold := newThreshold
    context := []
    announced := fun _ => (⟨coefficients, {1, 2}⟩, ⟨1, coefficients, ⟨Hash.ofBytes [7], 19⟩⟩)
    oldThreshold_pos := Nat.one_pos
    shared := (sharedBelow_of_trustedDealerKeygen sample_dealt).1
    fits := (sharedBelow_of_trustedDealerKeygen sample_dealt).2
    enough := le_rfl
    distinct_old := nodup_singleton _
    distinct_new := by decide
    round1 := fun k hk => by
      obtain rfl := mem_singleton.mp hk
      exact ⟨draws, [], h⟩ }

/-- The share the participant generates for a new member. -/
def sampleReceived (coefficients : List (ZMod 101)) (i : UInt16) : ExtTreeMap UInt16 (ZMod 101) :=
  insertAll ∅ [(1, evalPolynomial coefficients (indexScalar i))]

/-- What the participant announces. -/
def sampleReshared (coefficients : List (ZMod 101)) :
    ExtTreeMap UInt16 (DkgRound1Package (ZMod 101) (ZMod 101)) :=
  insertAll ∅ [(1, ⟨1, coefficients, ⟨Hash.ofBytes [7], 19⟩⟩)]

theorem sample_reshare_keeps_key :
    let := ScalarPrimitives.sample
    let := PointPrimitives.sample
    ∃ (newKey : PublicKeyPackage (ZMod 101)) (member : UInt16 → KeyPackage (ZMod 101) (ZMod 101)),
      (∀ i ∈ [1, 2], reshareFinalize i (sampleReshared [5]) (sampleReceived [5] i) ∅ [1, 2] 1
        ⟨5, insertAll ∅ [(1, 5)]⟩ = .ok (member i, newKey)) ∧ newKey.groupPublicKey = 5 := by
  let := ScalarPrimitives.sample
  let := PointPrimitives.sample
  have := lawfulCurve_sample
  have hdelivered : (sampleResharing 1 [5] [7] (by decide +kernel)).Delivered
      (sampleReceived [5]) := by
    refine Resharing.delivered_of_values fun i _ k hk => ?_
    obtain rfl := mem_singleton.mp hk
    rfl
  obtain ⟨-, hiff, -⟩ := Resharing.reshare_keeps_key_iff _ _ hdelivered
  obtain ⟨newKey, member, hfinalize, hgroup, -⟩ := hiff.mpr le_rfl
  exact ⟨newKey, member, hfinalize, hgroup⟩

/-- With a new threshold of two the one old participant's call is accepted and its package passes,
but no new member can finalize. -/
theorem sample_reshare_refused :
    let := ScalarPrimitives.sample
    let := PointPrimitives.sample
    ∃ secret package, reshareRound1 ⟨1, 5, 5⟩ [1] [1, 2] 2 [] [6, 7] = .ok ((secret, package), []) ∧
      sampleReshared [5, 6] = insertAll ∅ [(1, package)] ∧
      verifyReshareRound1Package package 2 [] ⟨5, insertAll ∅ [(1, 5)]⟩ [1] = .ok () ∧
      (∀ i ∈ [1, 2], dkgVerifyReceivedShare package i
        (evalPolynomial secret.coefficients (indexScalar i)) = true) ∧
      ∀ i ∈ [1, 2], reshareFinalize i (sampleReshared [5, 6]) (sampleReceived [5, 6] i) ∅ [1, 2] 2
        ⟨5, insertAll ∅ [(1, 5)]⟩ = .error .notEnoughSigners := by
  intro _ _
  refine ⟨⟨[5, 6], {1, 2}⟩, ⟨1, [5, 6], ⟨Hash.ofBytes [7], 19⟩⟩, by decide +kernel, rfl,
    by decide +kernel, ?_, ?_⟩
  all_goals
    intro i hi
    simp only [mem_cons, not_mem_nil, or_false] at hi
  · rcases hi with rfl | rfl <;> decide +kernel
  · rcases hi with rfl | rfl <;> rfl

end Mininet.Treasury

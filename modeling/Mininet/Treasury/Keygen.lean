import Mininet.Crypto
import Mininet.Lib.Draws
import Mininet.Lib.Interpolation
import Mininet.Lib.TreeMap

/-!
# Shares of a group key

The Ristretto group of `mini-treasury` and the hash onto its scalars come from outside crates:
scalars are a field, points a module over it, and `LawfulCurve` says what is relied on. A group key
is shared by a polynomial of degree below the threshold. `SharedBelow` says so of what is public,
where the polynomial has its coefficients in the group and nobody need know their logarithms.
-/

namespace Mininet.Treasury

open Codec Draws Fallible Interpolation TreeMaps List
open Std (ExtTreeMap)

/-- The errors of the threshold signature scheme. -/
inductive TreasuryError where
  | entropy
  | invalidFrostParameters
  | notEnoughSigners
  | invalidFrostParticipant
  | invalidFrostShare
  | invalidFrostSignatureShare
  | dkgProofOfKnowledgeFailed
  | reshareInvalidContribution
  | reshareGroupKeyMismatch
  | nonceCommitmentMismatch
  deriving DecidableEq, Repr

/-- The hash onto scalars: BLAKE3 with 64 bytes of output, reduced by the group order. -/
class ScalarPrimitives (F : Type) where
  blake3Scalar : Bytes → F

/-- The group, taken from an outside crate. -/
class PointPrimitives (M : Type) where
  /-- The group's public generator. -/
  basepoint : M
  compress : M → Hash
  decompress : Hash → Option M

export PointPrimitives (basepoint compress decompress)

/-- Hash the parts one after the other. -/
def hashToScalar {F : Type} [ScalarPrimitives F] (parts : List Bytes) : F :=
  ScalarPrimitives.blake3Scalar parts.flatten

/-- The group has prime order: different scalars are different multiples of its generator. Points
are compressed without loss, and the indices of a committee are different scalars. -/
class LawfulCurve (F M : Type) [Field F] [AddCommGroup M] [Module F M] [PointPrimitives M] :
    Prop where
  smul_basepoint_injective : Function.Injective fun r : F => r • (basepoint : M)
  decompress_compress (point : M) : decompress (compress point) = some point
  index_injective {i j : ℕ} : i ≤ 100 → j ≤ 100 → (i : F) = j → i = j

/-- A hash to evaluate the model with: the sum of the bytes. -/
@[reducible] def ScalarPrimitives.sample : ScalarPrimitives (ZMod 101) where
  blake3Scalar bs := (bs.map fun b => (b.toNat : ZMod 101)).sum

/-- A group to evaluate the model with: the scalars themselves, compressed to one byte. -/
@[reducible] def PointPrimitives.sample : PointPrimitives (ZMod 101) where
  basepoint := 1
  compress point := Hash.ofBytes [UInt8.ofNat point.val]
  decompress bs := some (bs.bytes.headD 0).toNat

instance factPrime : Fact (Nat.Prime 101) := ⟨by norm_num⟩

-- the numerals of the samples
instance atLeastTwoFive : Nat.AtLeastTwo 5 := inferInstance

instance atLeastTwoNineteen : Nat.AtLeastTwo 19 := inferInstance

lemma lawfulCurve_sample : @LawfulCurve (ZMod 101) (ZMod 101) _ _ _ .sample := by
  let := PointPrimitives.sample
  refine ⟨fun r r' h => ?_, by decide +kernel, fun {i j} hi hj h => ?_⟩
  · have hone : r * 1 = r' * 1 := h
    rwa [mul_one, mul_one] at hone
  · have hval := congrArg ZMod.val h
    rwa [ZMod.val_natCast_of_lt (by omega), ZMod.val_natCast_of_lt (by omega)] at hval

/-- Hard cap on the participants of a committee. -/
def maxParticipants : UInt16 := 100

def indexScalar {F : Type} [Field F] (index : UInt16) : F := (index.toNat : F)

/-- The indices `1..=n`. -/
def indicesThrough (n : UInt16) : List UInt16 :=
  (List.range n.toNat).map fun k => UInt16.ofNat (k + 1)

def randomScalar {F : Type} : Drawing F TreasuryError F := draw .entropy

structure KeyPackage (F M : Type) where
  index : UInt16
  secretShare : F
  groupPublicKey : M
  deriving DecidableEq

structure PublicKeyPackage (M : Type) where
  groupPublicKey : M
  verifyingShares : ExtTreeMap UInt16 M

variable {F M : Type} [Field F] [AddCommGroup M] [Module F M]

/-- Evaluate `a_0 + a_1 * x + ...` by Horner's method. -/
def evalPolynomial (coefficients : List F) (x : F) : F :=
  coefficients.foldr (fun coeff acc => acc * x + coeff) 0

/-- Evaluate `A_0 + A_1 * x + ...` in the exponent. -/
def evalCommitments (commitments : List M) (x : F) : M :=
  commitments.foldr (fun commitment acc => x • acc + commitment) 0

lemma evalCommitments_eq_horner (commitments : List M) (x : F) :
    evalCommitments commitments x = horner x commitments := rfl

lemma evalPolynomial_eq_horner (coefficients : List F) (x : F) :
    evalPolynomial coefficients x = horner x coefficients := by
  simp only [evalPolynomial, horner, smul_eq_mul, mul_comm x]

section Curve

variable [PointPrimitives M]

/-- Evaluating in the exponent is evaluating and then multiplying the generator. -/
lemma evalPolynomial_smul_basepoint (coefficients : List F) (x : F) :
    evalPolynomial coefficients x • (basepoint : M) =
      evalCommitments (coefficients.map fun c => c • (basepoint : M)) x := by
  rw [evalPolynomial_eq_horner, evalCommitments_eq_horner]
  exact (horner_map (LinearMap.toSpanSingleton F M basepoint) x coefficients).symm

variable [LawfulCurve F M]

variable (F) in
include F in
lemma compress_injective : Function.Injective (compress : M → Hash) := by
  intro p q h
  have hp := LawfulCurve.decompress_compress (F := F) p
  rw [h, LawfulCurve.decompress_compress (F := F) q] at hp
  exact (Option.some.inj hp).symm

variable (M) in
include M in
lemma indexScalar_inj {i j : UInt16} (hi : i ≤ maxParticipants) (hj : j ≤ maxParticipants)
    (h : (indexScalar i : F) = indexScalar j) : i = j :=
  UInt16.toNat_inj.mp (LawfulCurve.index_injective (F := F) (M := M)
    (UInt16.le_iff_toNat_le.mp hi) (UInt16.le_iff_toNat_le.mp hj) h)

variable (M) in
include M in
lemma nodup_map_indexScalar {indices : List UInt16} (hnodup : indices.Nodup)
    (h : ∀ i ∈ indices, i ≤ maxParticipants) : (indices.map (indexScalar : UInt16 → F)).Nodup :=
  List.Nodup.map_on (fun i hi j hj heq => indexScalar_inj M (h i hi) (h j hj) heq) hnodup

end Curve

/-! ### What a shared key is -/

/-- The verifying shares are the values of one polynomial of degree below `t`, and the group key is
its value at zero. -/
def PublicKeyPackage.SharedBelow (F : Type) [Field F] [Module F M] (publicKey : PublicKeyPackage M)
    (t : ℕ) : Prop :=
  ∃ c : ℕ → M, c 0 = publicKey.groupPublicKey ∧
    ∀ i y, publicKey.verifyingShares[i]? = some y → y = value t c (indexScalar i : F)

/-- A key package fits what is public of the key. -/
structure KeyPackage.Fits [PointPrimitives M] (key : KeyPackage F M)
    (publicKey : PublicKeyPackage M) : Prop where
  share : publicKey.verifyingShares[key.index]? = some (key.secretShare • basepoint)
  groupPublicKey : key.groupPublicKey = publicKey.groupPublicKey

/-! ### The trusted dealer -/

section Dealer

variable [PointPrimitives M]

/-- One party draws the polynomial and deals its values. -/
def trustedDealerKeygen (n threshold : UInt16) :
    Drawing F TreasuryError (List (KeyPackage F M) × PublicKeyPackage M) := do
  check (failIf (n = 0 ∨ n > maxParticipants ∨ threshold = 0 ∨ threshold > n)
    .invalidFrostParameters)
  let coefficients ← drawMany .entropy threshold.toNat
  let groupPublicKey := coefficients.headD 0 • basepoint
  let share := fun index => evalPolynomial coefficients (indexScalar index)
  pure ((indicesThrough n).map fun index => ⟨index, share index, groupPublicKey⟩,
    ⟨groupPublicKey, insertAll ∅ ((indicesThrough n).map fun index =>
      (index, share index • basepoint))⟩)

/-- A dealt key is shared by a polynomial of as many coefficients as the threshold, and every dealt
package fits it. -/
theorem sharedBelow_of_trustedDealerKeygen {n threshold : UInt16} {draws rest : List F}
    {keys : List (KeyPackage F M)} {publicKey : PublicKeyPackage M}
    (h : trustedDealerKeygen n threshold draws = .ok ((keys, publicKey), rest)) :
    publicKey.SharedBelow F threshold.toNat ∧ ∀ key ∈ keys, key.Fits publicKey := by
  obtain ⟨⟨⟩, -, hdrawn⟩ := check_bind_ok.mp h
  obtain ⟨coefficients, mid, hcoefficients, hdealt⟩ := Draws.bind_ok.mp hdrawn
  obtain ⟨hlength, -⟩ := drawMany_ok.mp hcoefficients
  obtain ⟨hpair, -⟩ := Draws.pure_ok.mp hdealt
  obtain ⟨rfl, rfl⟩ := Prod.mk.inj hpair
  refine ⟨⟨fun k => coefficients.getD k 0 • basepoint, ?_, fun i y hy => ?_⟩, fun key hkey => ?_⟩
  · cases coefficients <;> rfl
  · rw [getElem?_insertAll_map _ _
      (fun index => evalPolynomial coefficients (indexScalar index) • basepoint)] at hy
    split_ifs at hy with hmem
    · rw [← Option.some.inj hy, evalPolynomial_eq_horner, horner_eq_value, hlength]
      simp [value, Finset.sum_smul, mul_smul]
    · simp at hy
  · obtain ⟨index, hindex, rfl⟩ := mem_map.mp hkey
    refine ⟨?_, rfl⟩
    rw [getElem?_insertAll_map _ _
      (fun index => evalPolynomial coefficients (indexScalar index) • basepoint), if_pos hindex]

end Dealer

/-! ### Interpolation -/

variable [DecidableEq F] {publicKey : PublicKeyPackage M}

/-- The weight of a participant when the secret is interpolated from a set of them. -/
def lagrangeCoefficient (index : F) (allIndices : List F) : F :=
  let (numerator, denominator) := allIndices.foldl
    (fun (numerator, denominator) j =>
      if j = index then (numerator, denominator) else (numerator * j, denominator * (j - index)))
    (1, 1)
  numerator * denominator⁻¹

lemma foldl_lagrange (index : F) (allIndices : List F) (acc : F × F) :
    allIndices.foldl (fun (numerator, denominator) j =>
      if j = index then (numerator, denominator) else (numerator * j, denominator * (j - index)))
      acc = (acc.1 * (allIndices.filter (· ≠ index)).prod,
        acc.2 * ((allIndices.filter (· ≠ index)).map fun j => j - index).prod) := by
  induction allIndices generalizing acc with
  | nil => simp
  | cons j js ih =>
    rw [foldl_cons, ih]
    by_cases h : j = index
    · simp [h]
    · simp [h, mul_assoc]

lemma lagrangeCoefficient_eq_weight (index : F) {allIndices : List F} (h : allIndices.Nodup) :
    lagrangeCoefficient index allIndices = weight allIndices.toFinset index := by
  have herase : allIndices.toFinset.erase index = (allIndices.filter (· ≠ index)).toFinset := by
    ext j
    simp [and_comm]
  have hnodup := h.filter (· ≠ index)
  rw [weight, herase, Finset.prod_mul_distrib, Finset.prod_inv_distrib,
    prod_toFinset _ hnodup, prod_toFinset _ hnodup, map_id']
  simp [lagrangeCoefficient, foldl_lagrange]

/-- The weighted verifying shares of enough participants add up to the group key. -/
lemma PublicKeyPackage.SharedBelow.sum_lagrange {t : ℕ}
    (h : publicKey.SharedBelow F t) (ht : 0 < t) {indices : List UInt16}
    (hdistinct : (indices.map (indexScalar : UInt16 → F)).Nodup) (henough : t ≤ indices.length)
    {y : UInt16 → M} (hy : ∀ i ∈ indices, publicKey.verifyingShares[i]? = some (y i)) :
    (indices.map fun i => lagrangeCoefficient (indexScalar i)
      (indices.map (indexScalar : UInt16 → F)) • y i).sum = publicKey.groupPublicKey := by
  obtain ⟨c, hconstant, hvalue⟩ := h
  have hcard : t ≤ (indices.map (indexScalar : UInt16 → F)).toFinset.card := by
    rwa [toFinset_card_of_nodup hdistinct, length_map]
  rw [← hconstant, ← sum_weight_smul_value ht hcard c, sum_toFinset _ hdistinct, map_map]
  refine congrArg List.sum (map_congr_left fun i hi => ?_)
  rw [lagrangeCoefficient_eq_weight _ hdistinct, hvalue i (y i) (hy i hi), Function.comp_apply]

/-- The weighted shares of enough participants add up to the logarithm of the group key. -/
lemma PublicKeyPackage.SharedBelow.sum_lagrange_smul [PointPrimitives M] {t : ℕ}
    (h : publicKey.SharedBelow F t) (ht : 0 < t)
    {keys : List (KeyPackage F M)} (hdistinct : (keys.map fun k => (indexScalar k.index : F)).Nodup)
    (henough : t ≤ keys.length) (hfits : ∀ k ∈ keys, k.Fits publicKey) :
    (keys.map fun k => lagrangeCoefficient (indexScalar k.index)
      (keys.map fun k => indexScalar k.index) * k.secretShare).sum • (basepoint : M) =
        publicKey.groupPublicKey := by
  have hy : ∀ i ∈ keys.map KeyPackage.index,
      publicKey.verifyingShares[i]? = some ((publicKey.verifyingShares[i]?).getD 0) := by
    intro i hi
    obtain ⟨k, hk, rfl⟩ := mem_map.mp hi
    rw [(hfits k hk).share, Option.getD_some]
  have hindices : ((keys.map KeyPackage.index).map (indexScalar : UInt16 → F)).Nodup := by
    rwa [map_map]
  have hsum := h.sum_lagrange ht hindices (by rwa [length_map]) hy
  rw [map_map, map_map] at hsum
  rw [← hsum, sum_smul, map_map]
  refine congrArg List.sum (map_congr_left fun k hk => ?_)
  rw [Function.comp_apply, Function.comp_apply, (hfits k hk).share, Option.getD_some, mul_smul]
  rfl

end Mininet.Treasury

import Mininet.Chain.Vote
import Mininet.Economy.EpochWire
import Mininet.Settlement.Claim

/-!
# Block bodies

A body is three ordered lists: payment claims, the key images that shielded claims spend, and
monetary epochs. Headers commit to its hash.
-/

namespace Mininet

open Codec List

inductive ExecutionError where
  | wrongHeight (expected got : UInt64)
  | wrongParent
  | notFinalized (e : ChainError)
  | stateRootMismatch
  | bodyRootMismatch
  | tooManyClaims
  | tooManyNullifiers
  | missingClaimVerifier
  | invalidShieldedClaim
  | unknownShieldedInput
  | duplicateShieldedOutput
  | shieldedGenesisMismatch
  | tooManyMonetaryEpochs
  | invalidMonetaryEpoch (e : EconomyError)
  | invalidGenesisAllocation
  | amountOverflow
  | supplyConservationViolation
  | snapshotMalformed
  | snapshotTooLarge
  | snapshotWrongNetwork
  | snapshotProofMismatch
  | timestampNotDeterministic (expected got : UInt64)
  deriving DecidableEq, Repr

/-- Hard cap on the claims of one block. -/
def maxClaimsPerBlock : ℕ := 4096

/-- Hard cap on the monetary epochs of one block. -/
def maxMonetaryEpochsPerBlock : ℕ := 1

/-- Hard cap on the nullifier records of one block. -/
def maxNullifiersPerBlock : ℕ := 4096

/-- Longest key image the ledger stores. -/
def maxKeyImageBytes : ℕ := 64

/-- One output that a shielded claim spends. -/
@[ext]
structure NullifierRecord where
  keyImage : Bytes
  claimDigest : Hash
  deriving DecidableEq

namespace NullifierRecord

def isWellFormed (r : NullifierRecord) : Bool :=
  !r.keyImage.isEmpty && decide (r.keyImage.length ≤ maxKeyImageBytes)

def canonicalBytes (r : NullifierRecord) : Bytes := framed UInt32 r.keyImage ++ r.claimDigest.bytes

lemma canonicalBytes_append_inj {a b : NullifierRecord} {r s : Bytes}
    (ha : a.keyImage.length < 2 ^ 32) (hb : b.keyImage.length < 2 ^ 32)
    (h : a.canonicalBytes ++ r = b.canonicalBytes ++ s) : a = b ∧ r = s := by
  simp only [canonicalBytes, append_assoc] at h
  obtain ⟨himage, h⟩ := framed_append_inj ha hb h
  obtain ⟨hdigest, hrest⟩ := append_inj h (by simp)
  cases a
  cases b
  cases himage
  cases Hash.bytes_injective hdigest
  exact ⟨rfl, hrest⟩

end NullifierRecord

structure SettlementBlockBody where
  claims : List PaymentClaim := []
  nullifiers : List NullifierRecord := []
  monetaryEpochs : List ScalableEpochPlan := []
  deriving DecidableEq

namespace SettlementBlockBody

def bodyDomain : Bytes := utf8 "mini-execution/settlement-block-body/v3"

variable [Primitives]

/-- What is hashed: the claims by their digests, the rest in full. -/
def preimage (b : SettlementBlockBody) : Bytes :=
  bodyDomain ++ (countBytes UInt64 b.claims.length ++
    (b.claims.flatMap (fun c => c.claimDigest.bytes) ++ (countBytes UInt64 b.nullifiers.length ++
    (b.nullifiers.flatMap NullifierRecord.canonicalBytes ++
    (countBytes UInt64 b.monetaryEpochs.length ++
    b.monetaryEpochs.flatMap fun e => framed UInt64 e.canonicalBytes)))))

/-- Content hash of the ordered body. -/
def hash (b : SettlementBlockBody) : Hash := blake3 b.preimage

/-! ### What the hash determines -/

/-- Every list and field is shorter than the count or length in front of it can say. -/
structure Fits (b : SettlementBlockBody) : Prop where
  claims : b.claims.length < 2 ^ 64
  claim : ∀ c ∈ b.claims, c.Fits
  nullifiers : b.nullifiers.length < 2 ^ 64
  nullifier : ∀ r ∈ b.nullifiers, r.keyImage.length < 2 ^ 32
  epochs : b.monetaryEpochs.length < 2 ^ 64
  epoch : ∀ e ∈ b.monetaryEpochs, e.Fits

/-- Two bodies with the same records and epochs, whose claims differ at most in their
signatures. -/
structure SameTerms (a b : SettlementBlockBody) : Prop where
  claims : List.Forall₂ PaymentClaim.SameTerms a.claims b.claims
  nullifiers : a.nullifiers = b.nullifiers
  monetaryEpochs : a.monetaryEpochs = b.monetaryEpochs

/-- The strings hashed to hash a body. -/
def hashed (b : SettlementBlockBody) : Set Bytes :=
  {b.preimage} ∪ {m | ∃ c ∈ b.claims, m = c.claimMessage}

variable {b : SettlementBlockBody} {a : SettlementBlockBody}

lemma preimage_mem_hashed (b : SettlementBlockBody) : b.preimage ∈ b.hashed := .inl rfl

lemma claimMessage_mem_hashed {c : PaymentClaim} (hc : c ∈ b.claims) :
    c.claimMessage ∈ b.hashed := .inr ⟨c, hc, rfl⟩

lemma hashed_eq_singleton (h : b.claims = []) : b.hashed = {b.preimage} := by
  simp [hashed, h]

/-- Signatures are not hashed. -/
lemma SameTerms.hash_eq (h : a.SameTerms b) : a.hash = b.hash := by
  have hdigests : ∀ {cs ds : List PaymentClaim}, List.Forall₂ PaymentClaim.SameTerms cs ds →
      cs.flatMap (fun c => c.claimDigest.bytes) = ds.flatMap (fun c => c.claimDigest.bytes) := by
    intro cs ds hcs
    induction hcs with
    | nil => rfl
    | cons hterms _ ih => rw [flatMap_cons, flatMap_cons, hterms.claimDigest_eq, ih]
  simp only [hash, preimage, h.claims.length_eq, hdigests h.claims, h.nullifiers, h.monetaryEpochs]

/-- Where no two of the strings hashed collide, the hash determines all of the body but the
signatures of its claims. -/
lemma sameTerms_of_hash_eq (ha : a.Fits) (hb : b.Fits)
    (hinj : Set.InjOn blake3 (a.hashed ∪ b.hashed)) (h : a.hash = b.hash) : a.SameTerms b := by
  have h := hinj (.inl a.preimage_mem_hashed) (.inr b.preimage_mem_hashed) h
  unfold preimage at h
  have h := append_cancel_left h
  obtain ⟨hclaimCount, h⟩ := countBytes_append_inj ha.claims hb.claims h
  obtain ⟨hdigests, h⟩ := flatMap_append_inj PaymentClaim.claimDigest
    (fun c _ d _ r s hcd => by
      obtain ⟨hbytes, hrest⟩ := append_inj hcd (by simp)
      exact ⟨Hash.bytes_injective hbytes, hrest⟩) hclaimCount h
  obtain ⟨hrecordCount, h⟩ := countBytes_append_inj ha.nullifiers hb.nullifiers h
  obtain ⟨hrecords, h⟩ := flatMap_append_inj id
    (fun r hr s hs _ _ => NullifierRecord.canonicalBytes_append_inj (ha.nullifier r hr)
      (hb.nullifier s hs)) hrecordCount h
  obtain ⟨hepochCount, h⟩ := countBytes_append_inj ha.epochs hb.epochs h
  have hepoch : ∀ e ∈ a.monetaryEpochs, ∀ f ∈ b.monetaryEpochs, ∀ r s,
      framed UInt64 e.canonicalBytes ++ r = framed UInt64 f.canonicalBytes ++ s →
        id e = id f ∧ r = s := fun e he f hf r s hef => by
    obtain ⟨hbytes, hrest⟩ := framed_append_inj (ha.epoch e he).length_canonicalBytes
      (hb.epoch f hf).length_canonicalBytes hef
    exact ⟨ScalableEpochPlan.canonicalBytes_inj (ha.epoch e he) (hb.epoch f hf) hbytes, hrest⟩
  obtain ⟨hepochs, -⟩ := flatMap_append_inj id (r := []) (s := []) hepoch hepochCount
    (by simpa using h)
  refine ⟨?_, by simpa using hrecords, by simpa using hepochs⟩
  -- equal digests are equal messages, and those determine the terms
  rw [← forall₂_eq_eq_eq, forall₂_map_left_iff, forall₂_map_right_iff] at hdigests
  refine forall₂_iff_get.mpr ⟨hclaimCount, fun i hi hj => ?_⟩
  have hdigest := (forall₂_iff_get.mp hdigests).2 i hi hj
  have hmessage := hinj (.inl (claimMessage_mem_hashed (get_mem _ _)))
    (.inr (claimMessage_mem_hashed (get_mem _ _))) hdigest
  exact PaymentClaim.sameTerms_of_claimMessage_eq (ha.claim _ (get_mem _ _))
    (hb.claim _ (get_mem _ _)) hmessage

end SettlementBlockBody

end Mininet

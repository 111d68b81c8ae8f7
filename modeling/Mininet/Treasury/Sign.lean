import Mininet.Treasury.Dkg

/-!
# Threshold signing

`frost_sign`: the signers commit to nonces, a coordinator bundles the commitments with the message,
and the responses add up to an ordinary Schnorr signature under the group key. What a response must
be is a condition in the group (`verifySignatureShare_true`) that only one scalar meets, so the
aggregate of an accepted set of responses verifies whoever made them.
-/

namespace Mininet.Treasury

open Codec Draws Fallible Interpolation TreeMaps List
open Std (ExtTreeMap)

structure SigningNonces (F : Type) where
  hidingNonce : F
  bindingNonce : F

structure NonceCommitment (M : Type) where
  index : UInt16
  hidingNonce : M
  bindingNonce : M
  deriving DecidableEq

/-- The message and the signers' commitments, each under its own index. -/
structure SigningPackage (M : Type) where
  message : Bytes
  commitments : ExtTreeMap UInt16 (NonceCommitment M)
  index_eq : ∀ (i : UInt16) (c : NonceCommitment M), commitments[i]? = some c → c.index = i

/-- A Schnorr signature. -/
structure Signature (F : Type) where
  r : Hash
  z : F
  deriving DecidableEq

variable {F M : Type} [Field F] [AddCommGroup M] [Module F M] [ScalarPrimitives F]
  [PointPrimitives M]

/-- Draw a pair of nonces and commit to it. -/
def round1Commit (index : UInt16) :
    Drawing F TreasuryError (SigningNonces F × NonceCommitment M) := do
  let hidingNonce ← randomScalar
  let bindingNonce ← randomScalar
  pure (⟨hidingNonce, bindingNonce⟩, ⟨index, hidingNonce • basepoint, bindingNonce • basepoint⟩)

namespace SigningPackage

/-- One more commitment; an index that is there already is refused. -/
def insert (p : SigningPackage M) (commitment : NonceCommitment M) :
    Except TreasuryError (SigningPackage M) := do
  failIf (commitment.index ∈ p.commitments) .invalidFrostParticipant
  pure { p with
    commitments := p.commitments.insert commitment.index commitment
    index_eq := forall_getElem?_insert rfl fun i c _ => p.index_eq i c }

def new (threshold : UInt16) (message : Bytes) (commitments : List (NonceCommitment M)) :
    Except TreasuryError (SigningPackage M) := do
  failIf (commitments.length < threshold.toNat) .notEnoughSigners
  commitments.foldlM insert ⟨message, ∅, by simp⟩

def indices (p : SigningPackage M) : List F := p.commitments.keys.map indexScalar

/-- All commitments, in the order of their indices. -/
def transcript (p : SigningPackage M) : Bytes :=
  p.commitments.toList.flatMap fun (_, commitment) =>
    beBytes 2 commitment.index.toNat ++ (compress commitment.hidingNonce).bytes ++
      (compress commitment.bindingNonce).bytes

/-- The factor that binds a signer to the message and to all commitments. -/
def bindingFactor (p : SigningPackage M) (j : UInt16) : F :=
  hashToScalar [utf8 "mini-treasury/frost/binding-factor", beBytes 2 j.toNat, p.message,
    p.transcript]

def bindingFactors (p : SigningPackage M) : ExtTreeMap UInt16 F :=
  p.commitments.map fun j _ => p.bindingFactor j

def groupCommitment (p : SigningPackage M) (bindingFactors : ExtTreeMap UInt16 F) : M :=
  (p.commitments.toList.map fun (_, commitment) =>
    commitment.hidingNonce + bindingFactors.getD commitment.index 0 • commitment.bindingNonce).sum

def perSignerCommitment (p : SigningPackage M) (index : UInt16)
    (bindingFactors : ExtTreeMap UInt16 F) : Option M := do
  let commitment ← p.commitments[index]?
  let rho ← bindingFactors[index]?
  pure (commitment.hidingNonce + rho • commitment.bindingNonce)

end SigningPackage

def challenge (groupCommitment groupPublicKey : M) (message : Bytes) : F :=
  hashToScalar [utf8 "mini-treasury/frost/challenge", (compress groupCommitment).bytes,
    (compress groupPublicKey).bytes, message]

/-- The challenge a package's signers respond to under a group key. -/
def SigningPackage.challenge (p : SigningPackage M) (groupPublicKey : M) : F :=
  Treasury.challenge (p.groupCommitment (p.bindingFactors : ExtTreeMap UInt16 F)) groupPublicKey
    p.message

def verify (signature : Signature F) (message : Bytes) (groupPublicKey : M) : Bool :=
  match (decompress signature.r : Option M) with
  | none => false
  | some r =>
    let c : F := challenge r groupPublicKey message
    compress (signature.z • (basepoint : M)) = compress (r + c • groupPublicKey)

variable [DecidableEq F]

def round2Sign (keyPackage : KeyPackage F M) (nonces : SigningNonces F)
    (signingPackage : SigningPackage M) : Except TreasuryError F := do
  let commitment ← okOr signingPackage.commitments[keyPackage.index]? .invalidFrostParticipant
  failIf (compress (nonces.hidingNonce • (basepoint : M)) ≠ compress commitment.hidingNonce ∨
    compress (nonces.bindingNonce • (basepoint : M)) ≠ compress commitment.bindingNonce)
    .nonceCommitmentMismatch
  let rho := signingPackage.bindingFactors.getD keyPackage.index 0
  let c := signingPackage.challenge keyPackage.groupPublicKey
  let lambda := lagrangeCoefficient (indexScalar keyPackage.index) signingPackage.indices
  pure (nonces.hidingNonce + nonces.bindingNonce * rho + lambda * keyPackage.secretShare * c)

def verifySignatureShare (index : UInt16) (z : F) (signingPackage : SigningPackage M)
    (publicKeyPackage : PublicKeyPackage M) : Except TreasuryError Bool := do
  let y ← okOr publicKeyPackage.verifyingShares[index]? .invalidFrostParticipant
  let c : F := signingPackage.challenge publicKeyPackage.groupPublicKey
  let lambda := lagrangeCoefficient (indexScalar index) signingPackage.indices
  let r ← okOr (signingPackage.perSignerCommitment index
    (signingPackage.bindingFactors : ExtTreeMap UInt16 F)) .invalidFrostParticipant
  pure (decide (compress (z • (basepoint : M)) = compress (r + (c * lambda) • y)))

/-- A response, if it verifies. -/
def verifiedShare (index : UInt16) (z : F) (signingPackage : SigningPackage M)
    (publicKeyPackage : PublicKeyPackage M) : Except TreasuryError F := do
  let valid ← verifySignatureShare index z signingPackage publicKeyPackage
  failIf (valid = false) .invalidFrostSignatureShare
  pure z

/-- The responses must be those of exactly the committed signers, and each must verify. -/
def aggregate (signingPackage : SigningPackage M) (shares : ExtTreeMap UInt16 F)
    (publicKeyPackage : PublicKeyPackage M) : Except TreasuryError (Signature F) := do
  failIf (shares.keys ≠ signingPackage.commitments.keys) .invalidFrostParticipant
  let z ← shares.toList.foldlM (fun acc e => do
    let zi ← verifiedShare e.1 e.2 signingPackage publicKeyPackage
    pure (acc + zi)) 0
  pure ⟨compress (signingPackage.groupCommitment
    (signingPackage.bindingFactors : ExtTreeMap UInt16 F)), z⟩

/-! ### What a package commits its signers to -/

namespace SigningPackage

variable {p : SigningPackage M}

variable (F) in
/-- A signer's part of the group commitment. -/
def contribution (p : SigningPackage M) (i : UInt16) : M :=
  (p.commitments[i]?).elim 0 fun c => c.hidingNonce + (p.bindingFactor i : F) • c.bindingNonce

variable {commitments : List (NonceCommitment M)}

omit [Module F M] [AddCommGroup M] [Field F] [DecidableEq F] in
lemma getElem?_bindingFactors (i : UInt16) :
    (p.bindingFactors : ExtTreeMap UInt16 F)[i]? =
      p.commitments[i]?.map fun _ => p.bindingFactor i :=
  ExtTreeMap.getElem?_map

omit [Module F M] [AddCommGroup M] [DecidableEq F] in
lemma getD_bindingFactors {i : UInt16} {c : NonceCommitment M} (h : p.commitments[i]? = some c) :
    (p.bindingFactors : ExtTreeMap UInt16 F).getD i 0 = p.bindingFactor i := by
  rw [ExtTreeMap.getD_eq_getD_getElem?, getElem?_bindingFactors, h]
  rfl

omit [DecidableEq F] in
lemma groupCommitment_eq_sum (p : SigningPackage M) :
    p.groupCommitment (p.bindingFactors : ExtTreeMap UInt16 F) =
      (p.commitments.keys.map (p.contribution F)).sum := by
  refine congrArg List.sum (map_toList_eq_map_keys fun i c hc => ?_)
  dsimp only
  rw [contribution, hc, p.index_eq i c hc, getD_bindingFactors hc]
  rfl

omit [DecidableEq F] in
lemma perSignerCommitment_eq (i : UInt16) :
    p.perSignerCommitment i (p.bindingFactors : ExtTreeMap UInt16 F) =
      p.commitments[i]?.map fun _ => p.contribution F i := by
  rw [perSignerCommitment, contribution, getElem?_bindingFactors]
  cases p.commitments[i]? <;> rfl

omit [Module F M] [AddCommGroup M] [Field F] [ScalarPrimitives F] [PointPrimitives M]
  [DecidableEq F] in
lemma insertAll_of_foldlM {p : SigningPackage M} (hnew : ∀ c ∈ commitments, c.index ∉ p.commitments)
    (hnodup : (commitments.map NonceCommitment.index).Nodup) :
    ∃ p', commitments.foldlM insert p = .ok p' ∧ p'.message = p.message ∧
      p'.commitments = insertAll p.commitments (commitments.map fun c => (c.index, c)) := by
  induction commitments generalizing p with
  | nil => exact ⟨p, rfl, rfl, rfl⟩
  | cons c cs ih =>
    obtain ⟨hc, hcs⟩ := forall_mem_cons.mp hnew
    obtain ⟨hfirst, hrest⟩ := nodup_cons.mp hnodup
    have hinsert : p.insert c = .ok { p with
        commitments := p.commitments.insert c.index c
        index_eq := forall_getElem?_insert rfl fun i c _ => p.index_eq i c } :=
      failIf_bind_ok.mpr ⟨hc, rfl⟩
    rw [foldlM_cons, hinsert]
    refine ih (fun d hd hmem => ?_) hrest
    rcases ExtTreeMap.mem_insert.mp hmem with heq | hmem
    · have hindex : c.index = d.index := Std.LawfulEqCmp.eq_of_compare heq
      exact hfirst (hindex ▸ mem_map_of_mem hd)
    · exact hcs d hd hmem

omit [Module F M] [AddCommGroup M] [Field F] [ScalarPrimitives F] [PointPrimitives M]
  [DecidableEq F] in
/-- Enough commitments of different signers make a package of exactly them. -/
lemma exists_new {threshold : UInt16} (message : Bytes)
    (henough : threshold.toNat ≤ commitments.length)
    (hnodup : (commitments.map NonceCommitment.index).Nodup) :
    ∃ p, new threshold message commitments = .ok p ∧ p.message = message ∧
      p.commitments.toList.Perm (commitments.map fun c => (c.index, c)) := by
  obtain ⟨p, hp, hmessage, hcommitments⟩ := insertAll_of_foldlM
    (p := ⟨message, ∅, by simp⟩) (fun _ _ => ExtTreeMap.not_mem_empty) hnodup
  refine ⟨p, failIf_bind_ok.mpr ⟨Nat.not_lt.mpr henough, hp⟩, hmessage, ?_⟩
  rw [hcommitments]
  exact toList_insertAll_empty_perm (by rwa [map_map])

end SigningPackage

/-! ### Responses -/

section Responses

variable {package : SigningPackage M} {publicKey : PublicKeyPackage M} {key : KeyPackage F M}
  {nonces : SigningNonces F} {index : UInt16} {shares : ExtTreeMap UInt16 F}
  {signature : Signature F} {z : F} [LawfulCurve F M]

/-- The check of a response is an equation in the group. -/
lemma verifySignatureShare_true :
    verifySignatureShare index z package publicKey = .ok true ↔
      index ∈ package.commitments ∧ ∃ y, publicKey.verifyingShares[index]? = some y ∧
        z • (basepoint : M) = package.contribution F index +
          ((package.challenge publicKey.groupPublicKey : F) *
            lagrangeCoefficient (indexScalar index) package.indices) • y := by
  simp only [verifySignatureShare, Fallible.bind_ok, okOr_ok, Fallible.pure_ok,
    SigningPackage.perSignerCommitment_eq, Option.map_eq_some_iff, decide_eq_true_eq,
    (compress_injective F).eq_iff]
  constructor
  · rintro ⟨y, hy, r, ⟨c, hc, rfl⟩, hz⟩
    exact ⟨ExtTreeMap.mem_iff_isSome_getElem?.mpr (by simp [hc]), y, hy, hz⟩
  · rintro ⟨hmem, y, hy, hz⟩
    obtain ⟨c, hc⟩ := Option.isSome_iff_exists.mp (ExtTreeMap.mem_iff_isSome_getElem?.mp hmem)
    exact ⟨y, hy, _, ⟨c, hc, rfl⟩, hz⟩

lemma round2Sign_ok : round2Sign key nonces package = .ok z ↔
    ∃ c, package.commitments[key.index]? = some c ∧
      (nonces.hidingNonce • basepoint = c.hidingNonce ∧
        nonces.bindingNonce • basepoint = c.bindingNonce) ∧
      nonces.hidingNonce + nonces.bindingNonce * package.bindingFactor key.index +
        lagrangeCoefficient (indexScalar key.index) package.indices * key.secretShare *
          package.challenge key.groupPublicKey = z := by
  simp only [round2Sign, Fallible.bind_ok, okOr_ok, failIf_ok, not_or, not_not,
    Fallible.pure_ok, (compress_injective F).eq_iff]
  refine exists_congr fun c => and_congr_right fun hc => ?_
  rw [SigningPackage.getD_bindingFactors hc]
  exact exists_const Unit

/-- For a signer whose key package fits the group key there is one response that verifies, and it
is the one the signer computes. -/
lemma verifySignatureShare_iff_of_round2Sign (hfits : key.Fits publicKey)
    (hsign : round2Sign key nonces package = .ok z) {z' : F} :
    verifySignatureShare key.index z' package publicKey = .ok true ↔ z' = z := by
  obtain ⟨c, hc, ⟨hhiding, hbinding⟩, rfl⟩ := round2Sign_ok.mp hsign
  have hmem : key.index ∈ package.commitments :=
    ExtTreeMap.mem_iff_isSome_getElem?.mpr (by simp [hc])
  have hresponse : package.contribution F key.index +
      ((package.challenge publicKey.groupPublicKey : F) *
        lagrangeCoefficient (indexScalar key.index) package.indices) •
          key.secretShare • (basepoint : M) =
      (nonces.hidingNonce + nonces.bindingNonce * package.bindingFactor key.index +
        lagrangeCoefficient (indexScalar key.index) package.indices * key.secretShare *
          package.challenge key.groupPublicKey) • basepoint := by
    rw [SigningPackage.contribution, hc, Option.elim_some, ← hhiding, ← hbinding,
      hfits.groupPublicKey]
    module
  rw [verifySignatureShare_true, hfits.share]
  constructor
  · rintro ⟨-, y, hy, hz⟩
    cases hy
    exact LawfulCurve.smul_basepoint_injective (hz.trans hresponse)
  · rintro rfl
    exact ⟨hmem, _, rfl, hresponse.symm⟩

omit [LawfulCurve F M] in
lemma verifiedShare_ok {z' : F} : verifiedShare index z package publicKey = .ok z' ↔
    verifySignatureShare index z package publicKey = .ok true ∧ z' = z := by
  rw [verifiedShare, Fallible.bind_ok]
  simp only [failIf_bind_ok, Fallible.pure_ok, Bool.not_eq_false]
  constructor
  · rintro ⟨valid, hvalid, rfl, rfl⟩
    exact ⟨hvalid, rfl⟩
  · rintro ⟨hvalid, rfl⟩
    exact ⟨true, hvalid, rfl, rfl⟩

omit [LawfulCurve F M] in
lemma aggregate_ok : aggregate package shares publicKey = .ok signature ↔
    shares.keys = package.commitments.keys ∧
      (∀ (i : UInt16) (z : F), shares[i]? = some z →
        verifySignatureShare i z package publicKey = .ok true) ∧
      signature = ⟨compress (package.groupCommitment
        (package.bindingFactors : ExtTreeMap UInt16 F)), (shares.toList.map Prod.snd).sum⟩ := by
  have hsnd : ∀ e ∈ shares.toList, ∀ a, verifiedShare e.1 e.2 package publicKey = .ok a → a = e.2 :=
    fun e _ a h => (verifiedShare_ok.mp h).2
  rw [aggregate, failIf_bind_ok, Fallible.bind_ok, not_not]
  refine and_congr_right fun _ => ?_
  simp only [foldlM_add_ok hsnd, verifiedShare_ok, and_true, zero_add, Fallible.pure_ok]
  constructor
  · rintro ⟨total, ⟨hall, rfl⟩, rfl⟩
    exact ⟨fun i z hz => hall (i, z) (mem_toList.mpr hz), rfl⟩
  · rintro ⟨hall, rfl⟩
    exact ⟨_, ⟨fun e he => hall e.1 e.2 (mem_toList.mp he), rfl⟩, rfl⟩

/-- An aggregate of accepted responses verifies, whoever made them: enough signers of different
indices respond to the sum of their verifying shares, which is the group key. -/
lemma verify_of_aggregate {t : ℕ} (hshared : publicKey.SharedBelow F t) (ht : 0 < t)
    (hdistinct : (package.indices : List F).Nodup) (henough : t ≤ package.commitments.size)
    (h : aggregate package shares publicKey = .ok signature) :
    verify signature package.message publicKey.groupPublicKey = true := by
  obtain ⟨hkeys, hall, rfl⟩ := aggregate_ok.mp h
  simp only [verify, LawfulCurve.decompress_compress (F := F), decide_eq_true_eq]
  -- every signer has a verifying share, and its response is what the check says
  have hsigner : ∀ i ∈ package.commitments.keys, ∃ y, publicKey.verifyingShares[i]? = some y := by
    intro i hi
    rw [← hkeys, ExtTreeMap.mem_keys] at hi
    obtain ⟨z, hz⟩ := Option.isSome_iff_exists.mp (ExtTreeMap.mem_iff_isSome_getElem?.mp hi)
    obtain ⟨-, y, hy, -⟩ := verifySignatureShare_true.mp (hall i z hz)
    exact ⟨y, hy⟩
  have hy : ∀ i ∈ package.commitments.keys,
      publicKey.verifyingShares[i]? = some ((publicKey.verifyingShares[i]?).getD 0) := by
    intro i hi
    obtain ⟨y, hy⟩ := hsigner i hi
    rw [hy, Option.getD_some]
  have hresponse : ∀ (i : UInt16) (z : F), shares[i]? = some z →
      z • (basepoint : M) = package.contribution F i +
        package.challenge (F := F) publicKey.groupPublicKey •
          lagrangeCoefficient (indexScalar i) (package.indices : List F) •
            (publicKey.verifyingShares[i]?).getD 0 := by
    intro i z hz
    obtain ⟨-, y, hy, heq⟩ := verifySignatureShare_true.mp (hall i z hz)
    rw [heq, hy, Option.getD_some, mul_smul]
  have hgroup := hshared.sum_lagrange ht hdistinct
    (henough.trans_eq ExtTreeMap.length_keys.symm) hy
  have hsum : (shares.toList.map Prod.snd).sum • (basepoint : M) =
      package.groupCommitment (package.bindingFactors : ExtTreeMap UInt16 F) +
        package.challenge (F := F) publicKey.groupPublicKey • publicKey.groupPublicKey :=
    calc (shares.toList.map Prod.snd).sum • (basepoint : M)
        = (shares.toList.map fun e => e.2 • (basepoint : M)).sum := by
          rw [sum_smul, map_map]
          rfl
      _ = (package.commitments.keys.map fun i => package.contribution F i +
            package.challenge (F := F) publicKey.groupPublicKey •
              lagrangeCoefficient (indexScalar i) (package.indices : List F) •
                (publicKey.verifyingShares[i]?).getD 0).sum := by
          rw [← hkeys]
          exact congrArg List.sum (map_toList_eq_map_keys hresponse)
      _ = _ := by
          rw [sum_map_add, ← SigningPackage.groupCommitment_eq_sum]
          nth_rewrite 3 [← hgroup]
          rw [smul_sum, map_map]
          rfl
  exact congrArg compress hsum

end Responses

/-! ### Signing with a session's key -/

/-- A participant that finalized, with the randomness of its next nonces. -/
structure Signer (F M : Type) where
  participant : Participant F
  key : KeyPackage F M
  draws : List F

/-- The participant is honest, and its session gave it the key. -/
structure Signer.Holds (g : Signer F M) (s : Transcript F M) : Prop where
  honest : g.participant.Honest s
  finalized : g.participant.finalize s = .ok (g.key, s.publicKey)

namespace Signer

variable {s : Transcript F M} {g : Signer F M}

/-- What a signer commits to. -/
def commit (g : Signer F M) : SigningNonces F × NonceCommitment M :=
  let nonces : SigningNonces F := ⟨g.draws.headD 0, g.draws.tail.headD 0⟩
  (nonces, ⟨g.key.index, nonces.hidingNonce • basepoint, nonces.bindingNonce • basepoint⟩)

omit [ScalarPrimitives F] [DecidableEq F] in
lemma exists_round1Commit (h : 2 ≤ g.draws.length) :
    ∃ rest, round1Commit g.key.index g.draws = .ok (g.commit, rest) := by
  obtain ⟨participant, key, draws⟩ := g
  match draws, h with
  | d :: e :: rest, _ => exact ⟨rest, rfl⟩

omit [DecidableEq F] in
lemma Holds.index_mem (h : g.Holds s) : g.key.index ∈ includedSenders s.packages s.excluded := by
  obtain ⟨hmem, -, hkey, -⟩ := Participant.finalize_ok.mp h.finalized
  rw [hkey]
  exact hmem

/-- The response of a signer whose commitment is in the package. -/
lemma exists_round2Sign [LawfulCurve F M] {package : SigningPackage M}
    (h : package.commitments[g.key.index]? = some g.commit.2) :
    ∃ z, round2Sign g.key g.commit.1 package = .ok z :=
  ⟨_, round2Sign_ok.mpr ⟨g.commit.2, h, ⟨rfl, rfl⟩, rfl⟩⟩

end Signer

section Session

variable [LawfulCurve F M] {s : Transcript F M} {signers : List (Signer F M)}

/-- Enough participants that hold the key sign any message. -/
lemma exists_signature (hholds : ∀ g ∈ signers, g.Holds s)
    (hnodup : (signers.map fun g => g.key.index).Nodup)
    (henough : s.threshold.toNat ≤ signers.length) (message : Bytes) :
    ∃ (package : SigningPackage M) (z : Signer F M → F) (signature : Signature F),
      SigningPackage.new s.threshold message (signers.map fun g => g.commit.2) = .ok package ∧
      (∀ g ∈ signers, round2Sign g.key g.commit.1 package = .ok (z g)) ∧
      aggregate package (insertAll ∅ (signers.map fun g => (g.key.index, z g))) s.publicKey =
        .ok signature ∧
      verify signature message s.publicKey.groupPublicKey = true := by
  have hlength : s.threshold.toNat ≤ (signers.map fun g => g.commit.2).length := by
    rwa [length_map]
  obtain ⟨package, hnew, hmessage, hperm⟩ := SigningPackage.exists_new message hlength
    (by rwa [map_map])
  rw [map_map] at hperm
  -- every signer finds its own commitment in the package and responds to it
  have hcommitted : ∀ g ∈ signers, package.commitments[g.key.index]? = some g.commit.2 :=
    fun g hg => mem_toList.mp (hperm.mem_iff.mpr (mem_map.mpr ⟨g, hg, rfl⟩))
  have hresponds : ∀ g : Signer F M, ∃ z, g ∈ signers →
      round2Sign g.key g.commit.1 package = .ok z := by
    intro g
    by_cases hg : g ∈ signers
    · obtain ⟨z, hz⟩ := Signer.exists_round2Sign (hcommitted g hg)
      exact ⟨z, fun _ => hz⟩
    · exact ⟨0, fun h => absurd h hg⟩
  choose z hz using hresponds
  have hshares : (insertAll (∅ : ExtTreeMap UInt16 F)
      (signers.map fun g => (g.key.index, z g))).toList.Perm
        (signers.map fun g => (g.key.index, z g)) := by
    refine toList_insertAll_empty_perm ?_
    rwa [map_map]
  -- the committed signers are included senders, so their indices are different scalars
  have hkeys : package.commitments.keys.Perm (signers.map fun g => g.key.index) := by
    have hfst := hperm.map Prod.fst
    rwa [ExtTreeMap.map_fst_toList_eq_keys, map_map] at hfst
  have hindices : (package.indices : List F).Nodup := by
    refine nodup_map_indexScalar M ExtTreeMap.nodup_keys fun i hi => ?_
    obtain ⟨g, hg, rfl⟩ := mem_map.mp (hkeys.mem_iff.mp hi)
    exact s.le_maxParticipants (mem_includedSenders.mp (hholds g hg).index_mem).1
  obtain ⟨signature, haggregate⟩ : ∃ signature, aggregate package
      (insertAll ∅ (signers.map fun g => (g.key.index, z g))) s.publicKey = .ok signature := by
    refine ⟨_, aggregate_ok.mpr ⟨?_, fun i zi hi => ?_, rfl⟩⟩
    · have hfst := hshares.map Prod.fst
      rw [ExtTreeMap.map_fst_toList_eq_keys, map_map] at hfst
      exact keys_eq_of_perm (hfst.trans hkeys.symm)
    · obtain ⟨g, hg, heq⟩ := mem_map.mp (hshares.mem_iff.mp ((mem_toList (e := (i, zi))).mpr hi))
      obtain ⟨rfl, rfl⟩ := Prod.mk.inj heq
      exact (verifySignatureShare_iff_of_round2Sign
        ((hholds g hg).honest.fits_publicKey (hholds g hg).finalized) (hz g hg)).mpr rfl
  refine ⟨package, z, signature, hnew, fun g hg => hz g hg, haggregate, ?_⟩
  have hsize : s.threshold.toNat ≤ package.commitments.size := by
    rw [← ExtTreeMap.length_keys, hkeys.length_eq, length_map]
    exact henough
  rw [← hmessage]
  exact verify_of_aggregate s.sharedBelow_publicKey s.threshold_pos hindices hsize haggregate

/-- The participants of a session that finalize, with shares that all passed the check, get one
public key and a share of it each, whoever made the packages. Any threshold of them signs any
message. And under that key no set of responses is aggregated in which a signer's response is not
the one its key package and its nonces give. -/
theorem threshold_of_session_signs (s : Transcript F M) :
    (∀ p : Participant F, p.Honest s → p.index ∉ s.excluded →
      (∀ j ∈ includedSenders s.packages s.excluded, j ≠ p.index → j ∈ p.receivedShares) →
      ∃ key, p.finalize s = .ok (key, s.publicKey)) ∧
    (∀ p : Participant F, p.Honest s → ∀ key publicKey, p.finalize s = .ok (key, publicKey) →
      publicKey = s.publicKey ∧
        publicKey.verifyingShares[key.index]? = some (key.secretShare • basepoint)) ∧
    (∀ signers : List (Signer F M), (∀ g ∈ signers, g.Holds s ∧ 2 ≤ g.draws.length) →
      (signers.map fun g => g.key.index).Nodup → s.threshold.toNat ≤ signers.length →
      ∀ message, ∃ (commit : Signer F M → SigningNonces F × NonceCommitment M)
        (package : SigningPackage M) (z : Signer F M → F) (signature : Signature F),
        (∀ g ∈ signers, ∃ rest, round1Commit g.key.index g.draws = .ok (commit g, rest)) ∧
        SigningPackage.new s.threshold message (signers.map fun g => (commit g).2) = .ok package ∧
        (∀ g ∈ signers, round2Sign g.key (commit g).1 package = .ok (z g)) ∧
        aggregate package (insertAll ∅ (signers.map fun g => (g.key.index, z g))) s.publicKey =
          .ok signature ∧
        verify signature message s.publicKey.groupPublicKey = true) ∧
    ∀ (package : SigningPackage M) (shares : ExtTreeMap UInt16 F) (signature : Signature F),
      aggregate package shares s.publicKey = .ok signature →
      ∀ (key : KeyPackage F M) (nonces : SigningNonces F) (z : F), key.Fits s.publicKey →
        round2Sign key nonces package = .ok z → shares[key.index]? = some z := by
  refine ⟨fun p hp hincluded hshares => ?_, fun p hp key publicKey hfinalize => ?_,
    fun signers hsigners hnodup henough message => ?_,
    fun package shares signature haggregate key nonces z hfits hsign => ?_⟩
  · obtain ⟨_, package, _, -, hpackage⟩ := hp.round1
    have hmem : p.index ∈ includedSenders s.packages s.excluded :=
      mem_includedSenders.mpr ⟨ExtTreeMap.mem_iff_isSome_getElem?.mpr (by simp [hpackage]),
        hincluded⟩
    exact ⟨_, Participant.finalize_ok.mpr ⟨hmem, hshares, rfl, rfl⟩⟩
  · obtain ⟨-, -, -, rfl⟩ := Participant.finalize_ok.mp hfinalize
    exact ⟨rfl, (hp.fits_publicKey hfinalize).share⟩
  · obtain ⟨package, z, signature, hsigned⟩ :=
      exists_signature (fun g hg => (hsigners g hg).1) hnodup henough message
    exact ⟨Signer.commit, package, z, signature,
      fun g hg => Signer.exists_round1Commit (hsigners g hg).2, hsigned⟩
  · obtain ⟨hkeys, hall, -⟩ := aggregate_ok.mp haggregate
    obtain ⟨c, hc, -⟩ := round2Sign_ok.mp hsign
    have hmem : key.index ∈ shares := by
      rw [← ExtTreeMap.mem_keys, hkeys, ExtTreeMap.mem_keys]
      exact ExtTreeMap.mem_iff_isSome_getElem?.mpr (by simp [hc])
    obtain ⟨z', hz'⟩ := Option.isSome_iff_exists.mp (ExtTreeMap.mem_iff_isSome_getElem?.mp hmem)
    rw [hz', (verifySignatureShare_iff_of_round2Sign hfits hsign).mp (hall _ _ hz')]

end Session

/-! A session of two, whose polynomials are `3 + 4 x` and `5 + 6 x`. -/

def sampleRound1 : ExtTreeMap UInt16 (DkgRound1Package (ZMod 101) (ZMod 101)) :=
  insertAll ∅ [(1, ⟨1, [3, 4], ⟨Hash.ofBytes [7], 89⟩⟩), (2, ⟨2, [5, 6], ⟨Hash.ofBytes [8], 30⟩⟩)]

def sampleTranscript : Transcript (ZMod 101) (ZMod 101) where
  n := 2
  threshold := 2
  context := []
  packages := sampleRound1
  excluded := ∅
  accepted := by decide
  index_mem := by
    have hkeys : sampleRound1.keys.all (fun j => j ≠ 0 ∧ j ≤ 2) = true := by decide +kernel
    exact fun j hj => of_decide_eq_true (all_eq_true.mp hkeys j (ExtTreeMap.mem_keys.mpr hj))
  length_commitments := by
    have hlength : ∀ e ∈ sampleRound1.toList, e.2.commitments.length = 2 := by decide +kernel
    exact fun j p hp => hlength (j, p) (mem_toList.mpr hp)
  enough := by decide +kernel

def sampleSigners : List (Signer (ZMod 101) (ZMod 101)) :=
  [⟨⟨1, ⟨[3, 4], {1, 2}⟩, insertAll ∅ [(2, 11)]⟩, ⟨1, 18, 8⟩, [20, 21]⟩,
    ⟨⟨2, ⟨[5, 6], {1, 2}⟩, insertAll ∅ [(1, 11)]⟩, ⟨2, 28, 8⟩, [22, 23]⟩]

lemma sampleSigners_hold :
    let := ScalarPrimitives.sample
    let := PointPrimitives.sample
    ∀ g ∈ sampleSigners, g.Holds sampleTranscript := by
  intro _ _
  have hround : ∀ g ∈ sampleSigners, (dkgRound1 g.participant.index sampleTranscript.n
      sampleTranscript.threshold sampleTranscript.context
      (if g.participant.index = 1 then [3, 4, 7] else [5, 6, 8])).toOption.any (fun r =>
        decide (r.1.1 = g.participant.secret ∧
          sampleTranscript.packages[g.participant.index]? = some r.1.2)) = true := by
    decide +kernel
  have hverified : ∀ g ∈ sampleSigners, g.participant.receivedShares.toList.all (fun e =>
      (sampleTranscript.packages[e.1]?).all fun p =>
        dkgVerifyReceivedShare p g.participant.index e.2) = true := by decide +kernel
  have hfinalized : ∀ g ∈ sampleSigners, (g.participant.finalize sampleTranscript).toOption.any
      (fun r => decide (r.1 = g.key)) = true := by decide +kernel
  intro g hg
  obtain ⟨⟨⟨secret, package⟩, rest⟩, hok, htest⟩ := exists_of_any _ (hround g hg)
  obtain ⟨⟨key, publicKey⟩, hfinal, hkey⟩ := exists_of_any _ (hfinalized g hg)
  obtain ⟨hsecret, hpackage⟩ := of_decide_eq_true htest
  have hkey := of_decide_eq_true hkey
  dsimp only at hsecret hpackage hkey
  refine ⟨⟨⟨_, package, rest, hsecret ▸ hok, hpackage⟩, fun j share p hshare hp => ?_⟩, ?_⟩
  · have hentry := all_eq_true.mp (hverified g hg) (j, share) (mem_toList.mpr hshare)
    rw [hp, Option.all_some] at hentry
    exact hentry
  · obtain ⟨-, -, -, hpublic⟩ := Participant.finalize_ok.mp hfinal
    rw [hfinal, hkey, hpublic]

theorem sample_session_signs :
    let := ScalarPrimitives.sample
    let := PointPrimitives.sample
    ∃ signature : Signature (ZMod 101),
      verify signature (utf8 "pay") sampleTranscript.publicKey.groupPublicKey = true := by
  let := ScalarPrimitives.sample
  let := PointPrimitives.sample
  have := lawfulCurve_sample
  have hdraws : ∀ g ∈ sampleSigners, 2 ≤ g.draws.length := by decide
  obtain ⟨-, -, hsign, -⟩ := threshold_of_session_signs sampleTranscript
  obtain ⟨_, _, _, signature, -, -, -, -, hverify⟩ :=
    hsign sampleSigners (fun g hg => ⟨sampleSigners_hold g hg, hdraws g hg⟩) (by decide)
      (by decide) (utf8 "pay")
  exact ⟨signature, hverify⟩

end Mininet.Treasury

import Mininet.Treasury.Keygen

/-!
# Distributed key generation

`frost_dkg`: every participant shares a polynomial of its own, and the group key is the sum of
their constant terms. A share that does not fit the sender's commitments is complained about, and
`dkgResolve` decides from the listed complaints and rebuttals whose polynomial is left out.
-/

namespace Mininet.Treasury

open Codec Draws Fallible Interpolation TreeMaps List
open Std (ExtTreeMap)

/-- A Schnorr proof that a commitment's logarithm is known. -/
structure ProofOfKnowledge (F : Type) where
  r : Hash
  z : F
  deriving DecidableEq

/-- A participant's private polynomial, and the recipients its session permits. -/
structure DkgRound1Secret (F : Type) where
  coefficients : List F
  allowedRecipients : Finset UInt16
  deriving DecidableEq

/-- A participant's public broadcast. -/
structure DkgRound1Package (F M : Type) where
  index : UInt16
  commitments : List M
  proofOfKnowledge : ProofOfKnowledge F
  deriving DecidableEq

structure DkgComplaint where
  accuser : UInt16
  accused : UInt16
  deriving DecidableEq

structure DkgRebuttal (F : Type) where
  accused : UInt16
  accuser : UInt16
  revealedShare : F
  deriving DecidableEq

structure DkgResolution where
  excluded : Finset UInt16
  falseComplaints : List DkgComplaint
  deriving DecidableEq

variable {F M : Type} [Field F] [AddCommGroup M] [Module F M] [ScalarPrimitives F]
  [PointPrimitives M]

def pokChallenge (index : UInt16) (context : Bytes) (publicPoint r : M) : F :=
  hashToScalar [utf8 "mini-treasury/frost/dkg/proof-of-knowledge", beBytes 2 index.toNat, context,
    (compress publicPoint).bytes, (compress r).bytes]

def proveKnowledge (secret : F) (publicPoint : M) (index : UInt16) (context : Bytes) :
    Drawing F TreasuryError (ProofOfKnowledge F) := do
  let k ← randomScalar
  let r : M := k • basepoint
  let c := pokChallenge index context publicPoint r
  pure ⟨compress r, k + c * secret⟩

def verifyKnowledge (proof : ProofOfKnowledge F) (publicPoint : M) (index : UInt16)
    (context : Bytes) : Bool :=
  match (decompress proof.r : Option M) with
  | none => false
  | some r =>
    let c : F := pokChallenge index context publicPoint r
    compress (proof.z • (basepoint : M)) = compress (r + c • publicPoint)

/-- The public package of a polynomial, with a proof that its constant term is known. -/
def announce (index : UInt16) (coefficients : List F) (context : Bytes) :
    Drawing F TreasuryError (DkgRound1Package F M) := do
  let commitments : List M := coefficients.map fun c => c • basepoint
  let proofOfKnowledge ← proveKnowledge (coefficients.headD 0) (commitments.headD 0) index context
  pure ⟨index, commitments, proofOfKnowledge⟩

def dkgRound1 (index n threshold : UInt16) (context : Bytes) :
    Drawing F TreasuryError (DkgRound1Secret F × DkgRound1Package F M) := do
  check (failIf (n = 0 ∨ n > maxParticipants ∨ threshold = 0 ∨ threshold > n ∨ index = 0 ∨ index > n)
    .invalidFrostParameters)
  let coefficients ← drawMany .entropy threshold.toNat
  let package ← announce index coefficients context
  pure (⟨coefficients, (indicesThrough n).toFinset⟩, package)

/-- The commitments are as many as the threshold, and the constant term is known. -/
def verifyRound1Package (package : DkgRound1Package F M) (threshold : UInt16) (context : Bytes) :
    Except TreasuryError Unit := do
  failIf (package.commitments.length ≠ threshold.toNat) .invalidFrostParameters
  failIf (verifyKnowledge package.proofOfKnowledge (package.commitments.headD 0) package.index
    context = false) .dkgProofOfKnowledgeFailed

/-- The values of the polynomial at the recipients, who must be permitted and distinct. -/
def dkgGenerateRound2Shares (secret : DkgRound1Secret F) (recipientIndices : List UInt16) :
    Except TreasuryError (ExtTreeMap UInt16 F) := do
  checkDistinct (fun j => failIf (j = 0 ∨ j ∉ secret.allowedRecipients) .invalidFrostParticipant)
    .invalidFrostParticipant [] recipientIndices
  pure (insertAll ∅ (recipientIndices.map fun j =>
    (j, evalPolynomial secret.coefficients (indexScalar j))))

/-- Whether a share fits the sender's commitments. -/
def dkgVerifyReceivedShare (fromPackage : DkgRound1Package F M) (atIndex : UInt16) (share : F) :
    Bool :=
  compress (share • (basepoint : M)) =
    compress (evalCommitments fromPackage.commitments (indexScalar atIndex : F))

/-- One complaint: a sender who does not rebut it, or whose first listed rebuttal does not fit its
commitments, is excluded. -/
def dkgResolveComplaint (round1Packages : ExtTreeMap UInt16 (DkgRound1Package F M))
    (rebuttals : List (DkgRebuttal F)) (resolution : DkgResolution) (complaint : DkgComplaint) :
    Except TreasuryError DkgResolution := do
  failIf (complaint.accuser = 0) .invalidFrostParticipant
  let accusedPackage ← okOr round1Packages[complaint.accused]? .invalidFrostParticipant
  let rebuttal := rebuttals.find? fun r =>
    r.accused = complaint.accused ∧ r.accuser = complaint.accuser
  let rebutted := rebuttal.any fun r =>
    dkgVerifyReceivedShare accusedPackage complaint.accuser r.revealedShare
  if rebutted then
    pure { resolution with falseComplaints := resolution.falseComplaints ++ [complaint] }
  else
    pure { resolution with excluded := insert complaint.accused resolution.excluded }

def dkgResolve (round1Packages : ExtTreeMap UInt16 (DkgRound1Package F M))
    (complaints : List DkgComplaint) (rebuttals : List (DkgRebuttal F)) :
    Except TreasuryError DkgResolution :=
  complaints.foldlM (dkgResolveComplaint round1Packages rebuttals) ⟨∅, []⟩

/-- The senders whose polynomials make up the key. -/
def includedSenders (round1Packages : ExtTreeMap UInt16 (DkgRound1Package F M))
    (excluded : Finset UInt16) : List UInt16 :=
  round1Packages.keys.filter fun i => i ∉ excluded

/-- The commitments a sender published; every sender summed over has a package. -/
def commitmentsOf (round1Packages : ExtTreeMap UInt16 (DkgRound1Package F M)) (j : UInt16) :
    List M :=
  (round1Packages[j]?).elim [] DkgRound1Package.commitments

/-- The sum of the senders' constant terms. -/
def sumOfConstants (round1Packages : ExtTreeMap UInt16 (DkgRound1Package F M))
    (senders : List UInt16) : M :=
  (senders.map fun j => (commitmentsOf round1Packages j).headD 0).sum

/-- What is public of the key: each verifying share is the sum of the senders' commitments
evaluated at its holder. -/
def sumOfPackages (round1Packages : ExtTreeMap UInt16 (DkgRound1Package F M))
    (senders committee : List UInt16) : PublicKeyPackage M where
  groupPublicKey := sumOfConstants round1Packages senders
  verifyingShares := insertAll ∅ (committee.map fun k =>
    (k, (senders.map fun j => evalCommitments (commitmentsOf round1Packages j)
      (indexScalar k : F)).sum))

/-- The sum of the senders' shares, each of which must be there. -/
def sumOfShares (senders : List UInt16) (shareOf : UInt16 → Option F) : Except TreasuryError F :=
  senders.foldlM (fun acc j => do
    let share ← okOr (shareOf j) .invalidFrostShare
    pure (acc + share)) 0

def dkgFinalize (myIndex : UInt16) (mySecret : DkgRound1Secret F)
    (round1Packages : ExtTreeMap UInt16 (DkgRound1Package F M))
    (receivedShares : ExtTreeMap UInt16 F) (excluded : Finset UInt16) (threshold : UInt16) :
    Except TreasuryError (KeyPackage F M × PublicKeyPackage M) := do
  let included := includedSenders round1Packages excluded
  failIf (included.length < threshold.toNat ∨ myIndex ∉ included) .notEnoughSigners
  let secretShare ← sumOfShares included fun j =>
    if j = myIndex then some (evalPolynomial mySecret.coefficients (indexScalar myIndex))
    else receivedShares[j]?
  let publicKey := sumOfPackages round1Packages included included
  pure (⟨myIndex, secretShare, publicKey.groupPublicKey⟩, publicKey)

/-! ### What the rounds announce -/

section Rounds

variable {index : UInt16} {coefficients : List F} {context : Bytes} {draws rest : List F}

variable {package : DkgRound1Package F M}

omit [ScalarPrimitives F] in
lemma headD_map_smul_basepoint (coefficients : List F) :
    (coefficients.map fun c => c • (basepoint : M)).headD 0 = coefficients.headD 0 • basepoint := by
  cases coefficients <;> simp

lemma of_announce (h : announce index coefficients context draws = .ok (package, rest)) :
    package.index = index ∧ package.commitments = coefficients.map fun c => c • basepoint := by
  obtain ⟨proof, mid, -, hpackage⟩ := Draws.bind_ok.mp h
  obtain ⟨rfl, -⟩ := Draws.pure_ok.mp hpackage
  exact ⟨rfl, rfl⟩

/-- The proof an announcement carries is accepted. -/
lemma verifyKnowledge_of_announce [LawfulCurve F M]
    (h : announce index coefficients context draws = .ok (package, rest)) :
    verifyKnowledge package.proofOfKnowledge (package.commitments.headD 0) package.index context =
      true := by
  obtain ⟨proof, mid, hproof, hpackage⟩ := Draws.bind_ok.mp h
  obtain ⟨rfl, -⟩ := Draws.pure_ok.mp hpackage
  obtain ⟨k, mid', -, hproved⟩ := Draws.bind_ok.mp hproof
  obtain ⟨rfl, -⟩ := Draws.pure_ok.mp hproved
  simp only [verifyKnowledge, LawfulCurve.decompress_compress (F := F), decide_eq_true_eq]
  congr 1
  rw [headD_map_smul_basepoint, add_smul, mul_smul]

lemma of_dkgRound1 {n threshold : UInt16} {secret : DkgRound1Secret F}
    (h : dkgRound1 index n threshold context draws = .ok ((secret, package), rest)) :
    (n ≤ maxParticipants ∧ threshold ≠ 0 ∧ index ≠ 0 ∧ index ≤ n) ∧
      package.commitments = secret.coefficients.map fun c => c • basepoint := by
  obtain ⟨⟨⟩, hparameters, hdrawn⟩ := check_bind_ok.mp h
  obtain ⟨coefficients, mid, -, hrest⟩ := Draws.bind_ok.mp hdrawn
  obtain ⟨announced, mid', hannounce, hpair⟩ := Draws.bind_ok.mp hrest
  obtain ⟨heq, -⟩ := Draws.pure_ok.mp hpair
  obtain ⟨rfl, rfl⟩ := Prod.mk.inj heq
  simp only [failIf_ok, not_or] at hparameters
  obtain ⟨-, hn, hthreshold, -, hindex, hle⟩ := hparameters
  exact ⟨⟨UInt16.not_lt.mp hn, hthreshold, hindex, UInt16.not_lt.mp hle⟩, (of_announce hannounce).2⟩

end Rounds

/-! ### Summing the senders' contributions -/

section Sums

variable {packages : ExtTreeMap UInt16 (DkgRound1Package F M)} {senders committee : List UInt16}

omit [AddCommGroup M] [Module F M] [ScalarPrimitives F] [PointPrimitives M] in
lemma sumOfShares_ok {shareOf : UInt16 → Option F} {total : F} :
    sumOfShares senders shareOf = .ok total ↔
      (∀ j ∈ senders, (shareOf j).isSome) ∧
        total = (senders.map fun j => (shareOf j).getD 0).sum := by
  have hshare : ∀ j ∈ senders, ∀ share,
      okOr (shareOf j) TreasuryError.invalidFrostShare = .ok share → share = (shareOf j).getD 0 := by
    intro j _ share h
    rw [okOr_ok.mp h, Option.getD_some]
  rw [sumOfShares, foldlM_add_ok hshare, zero_add]
  refine and_congr_left fun _ => forall₂_congr fun j _ => ?_
  cases shareOf j <;> simp

omit [ScalarPrimitives F] [PointPrimitives M] in
lemma getElem?_verifyingShares (k : UInt16) :
    (sumOfPackages (F := F) packages senders committee).verifyingShares[k]? =
      if k ∈ committee then some (senders.map fun j =>
        evalCommitments (commitmentsOf packages j) (indexScalar k : F)).sum else none := by
  rw [sumOfPackages, getElem?_insertAll_map _ _ (fun k => (senders.map fun j =>
    evalCommitments (commitmentsOf packages j) (indexScalar k : F)).sum)]
  simp

omit [ScalarPrimitives F] [PointPrimitives M] in
/-- Polynomials of degree below `t` add up to one. -/
lemma sharedBelow_sumOfPackages {t : ℕ} (h : ∀ j ∈ senders, (commitmentsOf packages j).length = t) :
    (sumOfPackages (F := F) packages senders committee).SharedBelow F t := by
  refine ⟨fun k => (senders.map fun j => (commitmentsOf packages j).getD k 0).sum, ?_,
    fun i y hy => ?_⟩
  · refine congrArg List.sum (map_congr_left fun j _ => ?_)
    cases commitmentsOf packages j <;> rfl
  · rw [getElem?_verifyingShares] at hy
    split_ifs at hy
    rw [← Option.some.inj hy, value_sum]
    refine congrArg List.sum (map_congr_left fun j hj => ?_)
    rw [evalCommitments_eq_horner, horner_eq_value, h j hj]

omit [ScalarPrimitives F] in
/-- Shares that fit the senders' commitments add up to one that fits the verifying share. -/
lemma sum_smul_basepoint {k : UInt16} {share : UInt16 → F}
    (h : ∀ j ∈ senders, share j • (basepoint : M) =
      evalCommitments (commitmentsOf packages j) (indexScalar k : F)) :
    (senders.map share).sum • (basepoint : M) =
      (senders.map fun j => evalCommitments (commitmentsOf packages j) (indexScalar k : F)).sum := by
  rw [sum_smul, map_map]
  exact congrArg List.sum (map_congr_left h)

end Sums

/-! ### Finalizing -/

section Finalize

variable {packages : ExtTreeMap UInt16 (DkgRound1Package F M)} {excluded : Finset UInt16}
  {threshold : UInt16} {j : UInt16}

omit [ScalarPrimitives F] [Module F M] [AddCommGroup M] [Field F] [PointPrimitives M] in
lemma mem_includedSenders :
    j ∈ includedSenders packages excluded ↔ j ∈ packages ∧ j ∉ excluded := by
  simp [includedSenders]

/-- The round-one transcript of a session: who published what, and who is left out. Its parameters
are such as round one accepts. Anybody may have made the packages, as long as each has as many
commitments as the threshold. -/
structure Transcript (F M : Type) where
  n : UInt16
  threshold : UInt16
  context : Bytes
  packages : ExtTreeMap UInt16 (DkgRound1Package F M)
  excluded : Finset UInt16
  accepted : ¬ (n = 0 ∨ n > maxParticipants ∨ threshold = 0 ∨ threshold > n)
  index_mem : ∀ j ∈ packages, j ≠ 0 ∧ j ≤ n
  length_commitments : ∀ (j : UInt16) (p : DkgRound1Package F M), packages[j]? = some p →
    p.commitments.length = threshold.toNat
  enough : threshold.toNat ≤ (includedSenders packages excluded).length

/-- What a participant brings to the end of a session. -/
structure Participant (F : Type) where
  index : UInt16
  secret : DkgRound1Secret F
  receivedShares : ExtTreeMap UInt16 F

def Participant.finalize (p : Participant F) (s : Transcript F M) :
    Except TreasuryError (KeyPackage F M × PublicKeyPackage M) :=
  dkgFinalize p.index p.secret s.packages p.receivedShares s.excluded s.threshold

/-- A participant that followed the protocol: the package in the transcript is the one it announced
for its secret, and the shares it keeps passed the check against their senders' packages. -/
structure Participant.Honest (p : Participant F) (s : Transcript F M) : Prop where
  round1 : ∃ draws package rest,
    dkgRound1 p.index s.n s.threshold s.context draws = .ok ((p.secret, package), rest) ∧
      s.packages[p.index]? = some package
  verified : ∀ (j : UInt16) (share : F) (package : DkgRound1Package F M),
    p.receivedShares[j]? = some share → s.packages[j]? = some package →
      dkgVerifyReceivedShare package p.index share = true

omit [Field F] [AddCommGroup M] [Module F M] [ScalarPrimitives F] [PointPrimitives M] in
lemma Transcript.threshold_pos (s : Transcript F M) : 0 < s.threshold.toNat := by
  have h := s.accepted
  simp only [not_or] at h
  exact Nat.pos_of_ne_zero fun hzero => h.2.2.1 (UInt16.toNat_inj.mp hzero)

omit [Field F] [AddCommGroup M] [Module F M] [ScalarPrimitives F] [PointPrimitives M] in
lemma Transcript.le_maxParticipants (s : Transcript F M) (h : j ∈ s.packages) :
    j ≤ maxParticipants := by
  have hn := s.accepted
  simp only [not_or] at hn
  exact UInt16.le_trans (s.index_mem j h).2 (UInt16.not_lt.mp hn.2.1)

/-- The key of a session. -/
def Transcript.publicKey (s : Transcript F M) : PublicKeyPackage M :=
  sumOfPackages (F := F) s.packages (includedSenders s.packages s.excluded)
    (includedSenders s.packages s.excluded)

variable {s : Transcript F M} {p : Participant F} {publicKey : PublicKeyPackage M}
  {key : KeyPackage F M}

omit [ScalarPrimitives F] [PointPrimitives M] in
lemma Transcript.sharedBelow_publicKey (s : Transcript F M) :
    s.publicKey.SharedBelow F s.threshold.toNat := by
  refine sharedBelow_sumOfPackages fun j hj => ?_
  obtain ⟨package, hpackage⟩ := Option.isSome_iff_exists.mp
    (ExtTreeMap.mem_iff_isSome_getElem?.mp (mem_includedSenders.mp hj).1)
  rw [commitmentsOf, hpackage]
  exact s.length_commitments j package hpackage

omit [ScalarPrimitives F] [PointPrimitives M] in
lemma Participant.finalize_ok :
    p.finalize s = .ok (key, publicKey) ↔
      p.index ∈ includedSenders s.packages s.excluded ∧
      (∀ j ∈ includedSenders s.packages s.excluded, j ≠ p.index → j ∈ p.receivedShares) ∧
      key = ⟨p.index, ((includedSenders s.packages s.excluded).map fun j =>
        if j = p.index then evalPolynomial p.secret.coefficients (indexScalar p.index)
        else (p.receivedShares[j]?).getD 0).sum, s.publicKey.groupPublicKey⟩ ∧
      publicKey = s.publicKey := by
  have henough : ¬ (includedSenders s.packages s.excluded).length < s.threshold.toNat :=
    Nat.not_lt.mpr s.enough
  have hshare : ∀ j, (if j = p.index then
      some (evalPolynomial p.secret.coefficients (indexScalar p.index))
      else p.receivedShares[j]?).getD 0 = if j = p.index then
        evalPolynomial p.secret.coefficients (indexScalar p.index)
        else (p.receivedShares[j]?).getD 0 := fun j => by split_ifs <;> rfl
  have hsome : ∀ j, (if j = p.index then
      some (evalPolynomial p.secret.coefficients (indexScalar p.index))
      else p.receivedShares[j]?).isSome ↔ (j ≠ p.index → j ∈ p.receivedShares) := fun j => by
    split_ifs with h
    · simp [h]
    · simp [h]
  rw [finalize, dkgFinalize, failIf_bind_ok, Fallible.bind_ok]
  simp only [sumOfShares_ok, Fallible.pure_ok, Prod.mk.injEq, henough, false_or, not_not,
    hshare, hsome]
  constructor
  · rintro ⟨hmem, total, ⟨hall, rfl⟩, rfl, rfl⟩
    exact ⟨hmem, hall, rfl, rfl⟩
  · rintro ⟨hmem, hall, rfl, rfl⟩
    exact ⟨hmem, _, ⟨hall, rfl⟩, rfl, rfl⟩

/-- The package an honest participant's secret was announced with. -/
lemma Participant.Honest.commitmentsOf_index (h : p.Honest s) :
    commitmentsOf s.packages p.index = p.secret.coefficients.map fun c => c • basepoint := by
  obtain ⟨draws, package, rest, hround, hpackage⟩ := h.round1
  rw [commitmentsOf, hpackage]
  exact (of_dkgRound1 hround).2

/-- A finalized key package fits the session's key. -/
lemma Participant.Honest.fits_publicKey [LawfulCurve F M] (h : p.Honest s)
    (hfinalize : p.finalize s = .ok (key, publicKey)) :
    key.Fits s.publicKey := by
  obtain ⟨hmem, hall, rfl, -⟩ := finalize_ok.mp hfinalize
  refine ⟨?_, rfl⟩
  rw [Transcript.publicKey, getElem?_verifyingShares, if_pos hmem, sum_smul_basepoint]
  intro j hj
  split_ifs with hown
  · rw [hown, h.commitmentsOf_index, evalPolynomial_smul_basepoint]
  · obtain ⟨share, hshare⟩ := Option.isSome_iff_exists.mp
      (ExtTreeMap.mem_iff_isSome_getElem?.mp (hall j hj hown))
    obtain ⟨package, hpackage⟩ := Option.isSome_iff_exists.mp
      (ExtTreeMap.mem_iff_isSome_getElem?.mp (mem_includedSenders.mp hj).1)
    have hverified := of_decide_eq_true (h.verified j share package hshare hpackage)
    rw [hshare, commitmentsOf, hpackage]
    exact compress_injective F hverified

end Finalize

/-! ### Resolving complaints -/

section Resolve

variable {packages : ExtTreeMap UInt16 (DkgRound1Package F M)} {complaint : DkgComplaint}

omit [ScalarPrimitives F]

/-- A rebuttal answers a complaint: it is for the same pair, and reveals the evaluation that the
accused sender committed to. -/
def DkgRebuttal.Answers (packages : ExtTreeMap UInt16 (DkgRound1Package F M))
    (rebuttal : DkgRebuttal F) (complaint : DkgComplaint) : Prop :=
  (rebuttal.accused = complaint.accused ∧ rebuttal.accuser = complaint.accuser) ∧
    ∃ package, packages[complaint.accused]? = some package ∧
      dkgVerifyReceivedShare package complaint.accuser rebuttal.revealedShare = true

/-- A complaint that can be resolved: its accuser is an evaluation point and its accused a known
sender. -/
def DkgComplaint.Resolvable (packages : ExtTreeMap UInt16 (DkgRound1Package F M))
    (complaint : DkgComplaint) : Prop :=
  complaint.accuser ≠ 0 ∧ complaint.accused ∈ packages

/-- The first rebuttal listed for the complaint's pair answers it. -/
def DkgComplaint.Rebutted (packages : ExtTreeMap UInt16 (DkgRound1Package F M))
    (rebuttals : List (DkgRebuttal F)) (complaint : DkgComplaint) : Prop :=
  ∃ rebuttal, rebuttals.find? (fun r =>
    r.accused = complaint.accused ∧ r.accuser = complaint.accuser) = some rebuttal ∧
      rebuttal.Answers packages complaint

lemma DkgComplaint.Rebutted.exists_answers {rebuttals : List (DkgRebuttal F)}
    (h : complaint.Rebutted packages rebuttals) :
    ∃ r ∈ rebuttals, r.Answers packages complaint := by
  obtain ⟨rebuttal, hfind, hanswers⟩ := h
  exact ⟨rebuttal, mem_of_find?_eq_some hfind, hanswers⟩

/-- One complaint excludes its accused unless its first rebuttal answers it. -/
lemma dkgResolveComplaint_ok (rebuttals : List (DkgRebuttal F))
    (h : complaint.Resolvable packages) (resolution : DkgResolution) :
    ∃ resolution', dkgResolveComplaint packages rebuttals resolution complaint = .ok resolution' ∧
      ∀ a, a ∈ resolution'.excluded ↔ a ∈ resolution.excluded ∨
        complaint.accused = a ∧ ¬ complaint.Rebutted packages rebuttals := by
  obtain ⟨haccuser, haccused⟩ := h
  obtain ⟨package, hpackage⟩ := Option.isSome_iff_exists.mp
    (ExtTreeMap.mem_iff_isSome_getElem?.mp haccused)
  have hrebutted : complaint.Rebutted packages rebuttals ↔
      (rebuttals.find? fun r => r.accused = complaint.accused ∧ r.accuser = complaint.accuser).any
        (fun r => dkgVerifyReceivedShare package complaint.accuser r.revealedShare) = true := by
    rw [Option.any_eq_true]
    refine exists_congr fun r => and_congr_right fun hfind => ?_
    have hpair := List.find?_some hfind
    simp only [decide_eq_true_eq] at hpair
    simp [DkgRebuttal.Answers, hpair, hpackage]
  simp only [dkgResolveComplaint, failIf, haccuser, hpackage, okOr, if_false]
  by_cases hcase : complaint.Rebutted packages rebuttals
  · refine ⟨_, if_pos (hrebutted.mp hcase), fun a => ?_⟩
    simp [hcase]
  · refine ⟨_, if_neg (mt hrebutted.mpr hcase), fun a => ?_⟩
    simp [hcase, or_comm, eq_comm]

/-- Resolving excludes the senders with a complaint whose first rebuttal does not answer it. -/
lemma dkgResolve_ok {complaints : List DkgComplaint} (rebuttals : List (DkgRebuttal F))
    (h : ∀ c ∈ complaints, c.Resolvable packages) :
    ∃ resolution, dkgResolve packages complaints rebuttals = .ok resolution ∧
      ∀ a, a ∈ resolution.excluded ↔
        ∃ c ∈ complaints, c.accused = a ∧ ¬ c.Rebutted packages rebuttals := by
  suffices hfrom : ∀ start, ∃ resolution,
      complaints.foldlM (dkgResolveComplaint packages rebuttals) start = .ok resolution ∧
        ∀ a, a ∈ resolution.excluded ↔ a ∈ start.excluded ∨
          ∃ c ∈ complaints, c.accused = a ∧ ¬ c.Rebutted packages rebuttals by
    simpa [dkgResolve] using hfrom ⟨∅, []⟩
  induction complaints with
  | nil => exact fun start => ⟨start, rfl, by simp⟩
  | cons c cs ih =>
    intro start
    obtain ⟨hc, hcs⟩ := forall_mem_cons.mp h
    obtain ⟨mid, hmid, hmem⟩ := dkgResolveComplaint_ok rebuttals hc start
    obtain ⟨resolution, hrest, hexcluded⟩ := ih hcs mid
    refine ⟨resolution, by rw [foldlM_cons, hmid]; exact hrest, fun a => ?_⟩
    rw [hexcluded, hmem, exists_mem_cons_iff, or_assoc]

/-- Whatever the order and the repetitions of what is listed, resolving excludes the same senders,
and only such as have an unanswered complaint, if and only if for a sender with an answer to every
complaint there is no rebuttal listed that does not answer. -/
theorem dkgResolve_frames_nobody_iff {complaints : List DkgComplaint}
    {rebuttals : List (DkgRebuttal F)} (h : ∀ c ∈ complaints, c.Resolvable packages) :
    (∃ resolution, dkgResolve packages complaints rebuttals = .ok resolution ∧
      (∀ a ∈ resolution.excluded, ∃ c ∈ complaints, c.accused = a ∧
        ¬ ∃ r ∈ rebuttals, r.Answers packages c) ∧
      ∀ complaints' rebuttals', (∀ c, c ∈ complaints' ↔ c ∈ complaints) →
        (∀ r, r ∈ rebuttals' ↔ r ∈ rebuttals) →
        ∃ resolution', dkgResolve packages complaints' rebuttals' = .ok resolution' ∧
          resolution'.excluded = resolution.excluded) ↔
    ∀ a, (∀ c ∈ complaints, c.accused = a → ∃ r ∈ rebuttals, r.Answers packages c) →
      ∀ c ∈ complaints, c.accused = a → ∀ r ∈ rebuttals,
        r.accused = c.accused ∧ r.accuser = c.accuser → r.Answers packages c := by
  constructor
  · rintro ⟨resolution, -, hunanswered, hsame⟩ a hanswered c hc rfl r hr hpair
    -- the rebuttal that does not answer could have been listed first
    obtain ⟨resolution', hresolve, hexcluded⟩ := hsame complaints (r :: rebuttals) (fun _ => .rfl)
      fun r' => by simp only [mem_cons]; grind
    obtain ⟨resolution₂, hresolve₂, hmem⟩ := dkgResolve_ok (r :: rebuttals) h
    obtain rfl : resolution' = resolution₂ := Except.ok.inj (hresolve.symm.trans hresolve₂)
    by_contra hwrong
    have hin : c.accused ∈ resolution'.excluded := by
      refine (hmem _).mpr ⟨c, hc, rfl, ?_⟩
      rintro ⟨r', hfind, hanswers⟩
      rw [List.find?_cons_of_pos (by simpa using hpair)] at hfind
      cases hfind
      exact hwrong hanswers
    rw [hexcluded] at hin
    obtain ⟨c', hc', haccused, hnone⟩ := hunanswered _ hin
    exact hnone (hanswered c' hc' haccused)
  · intro hclean
    -- with that, the first rebuttal of a pair answers as soon as any does
    have hrebutted : ∀ rebuttals' : List (DkgRebuttal F), (∀ r, r ∈ rebuttals' ↔ r ∈ rebuttals) →
        ∀ a, (∃ c ∈ complaints, c.accused = a ∧ ¬ c.Rebutted packages rebuttals') ↔
          ∃ c ∈ complaints, c.accused = a ∧ ¬ ∃ r ∈ rebuttals, r.Answers packages c := by
      intro rebuttals' hmem a
      constructor
      · rintro ⟨c, hc, rfl, hnot⟩
        by_contra hall
        push Not at hall
        obtain ⟨r, hr, hanswers⟩ := hall c hc rfl
        have hfound : (rebuttals'.find? fun r =>
            r.accused = c.accused ∧ r.accuser = c.accuser).isSome :=
          List.find?_isSome.mpr ⟨r, (hmem r).mpr hr, decide_eq_true hanswers.1⟩
        obtain ⟨first, hfirst⟩ := Option.isSome_iff_exists.mp hfound
        have hpair := List.find?_some hfirst
        simp only [decide_eq_true_eq] at hpair
        exact hnot ⟨first, hfirst, hclean _ hall c hc rfl first
          ((hmem first).mp (mem_of_find?_eq_some hfirst)) hpair⟩
      · rintro ⟨c, hc, rfl, hnone⟩
        refine ⟨c, hc, rfl, fun hreb => hnone ?_⟩
        obtain ⟨r, hr, hanswers⟩ := hreb.exists_answers
        exact ⟨r, (hmem r).mp hr, hanswers⟩
    obtain ⟨resolution, hresolve, hexcluded⟩ := dkgResolve_ok rebuttals h
    refine ⟨resolution, hresolve, fun a ha => ?_, fun complaints' rebuttals' hcs hrs => ?_⟩
    · exact (hrebutted rebuttals (fun _ => .rfl) a).mp ((hexcluded a).mp ha)
    · obtain ⟨resolution', hresolve', hexcluded'⟩ := dkgResolve_ok rebuttals'
        fun c hc => h c ((hcs c).mp hc)
      refine ⟨resolution', hresolve', Finset.ext fun a => ?_⟩
      rw [hexcluded, hexcluded', hrebutted rebuttals (fun _ => .rfl) a,
        ← hrebutted rebuttals' hrs a]
      simp only [hcs]

end Resolve

/-- The transcript of one sender, whose polynomial is the constant 5. -/
def samplePackages : ExtTreeMap UInt16 (DkgRound1Package (ZMod 101) (ZMod 101)) :=
  (∅ : ExtTreeMap UInt16 (DkgRound1Package (ZMod 101) (ZMod 101))).insert 1
    ⟨1, [5], ⟨Hash.ofBytes [7], 19⟩⟩

theorem sample_frames_nobody :
    let := PointPrimitives.sample
    ∃ resolution, dkgResolve samplePackages [⟨2, 1⟩] [(⟨1, 2, 5⟩ : DkgRebuttal (ZMod 101))] =
        .ok resolution ∧
      (∀ a ∈ resolution.excluded, ∃ c ∈ [(⟨2, 1⟩ : DkgComplaint)], c.accused = a ∧
        ¬ ∃ r ∈ [(⟨1, 2, 5⟩ : DkgRebuttal (ZMod 101))], r.Answers samplePackages c) ∧
      ∀ complaints' rebuttals', (∀ c, c ∈ complaints' ↔ c ∈ [(⟨2, 1⟩ : DkgComplaint)]) →
        (∀ r, r ∈ rebuttals' ↔ r ∈ [(⟨1, 2, 5⟩ : DkgRebuttal (ZMod 101))]) →
        ∃ resolution', dkgResolve samplePackages complaints' rebuttals' = .ok resolution' ∧
          resolution'.excluded = resolution.excluded := by
  let := PointPrimitives.sample
  refine (dkgResolve_frames_nobody_iff ?_).mpr ?_
  · intro c hc
    obtain rfl := mem_singleton.mp hc
    exact ⟨by decide, by decide⟩
  · intro a _ c hc _ r hr hpair
    obtain rfl := mem_singleton.mp hc
    obtain rfl := mem_singleton.mp hr
    exact ⟨hpair, _, rfl, by decide +kernel⟩

/-- A sender announces its package and sends the right share. Somebody complains, and the sender's
correct rebuttal is listed behind one that somebody else injected: the sender is excluded. With the
two in the other order it is not. -/
theorem sample_sender_framed :
    let := ScalarPrimitives.sample
    let := PointPrimitives.sample
    ∃ (secret : DkgRound1Secret (ZMod 101)) (package : DkgRound1Package (ZMod 101) (ZMod 101)),
      dkgRound1 1 2 1 [] [5, 7] = .ok ((secret, package), []) ∧
      samplePackages[(1 : UInt16)]? = some package ∧
      dkgGenerateRound2Shares secret [2] = .ok ((∅ : ExtTreeMap UInt16 (ZMod 101)).insert 2 5) ∧
      dkgVerifyReceivedShare package 2 (5 : ZMod 101) = true ∧
      dkgResolve samplePackages [⟨2, 1⟩] [(⟨1, 2, 6⟩ : DkgRebuttal (ZMod 101)), ⟨1, 2, 5⟩] =
        .ok ⟨{1}, []⟩ ∧
      dkgResolve samplePackages [⟨2, 1⟩] [(⟨1, 2, 5⟩ : DkgRebuttal (ZMod 101)), ⟨1, 2, 6⟩] =
        .ok ⟨∅, [⟨2, 1⟩]⟩ := by
  let := ScalarPrimitives.sample
  let := PointPrimitives.sample
  exact ⟨⟨[5], {1, 2}⟩, ⟨1, [5], ⟨Hash.ofBytes [7], 19⟩⟩, by decide +kernel, rfl, by decide +kernel,
    by decide +kernel, by decide +kernel, by decide +kernel⟩

end Mininet.Treasury

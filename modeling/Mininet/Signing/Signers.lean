import Mininet.Custody.Manifest
import Mininet.Signing.Runs
import Mininet.Treasury.Sign

/-!
# The two durable signers

`DurableCustodySigner` signs with the outside library the custody ceremony uses and records a
commitment as the bytes it serialises to; `DurableFrostSigner` signs with the treasury's own scheme
and records a commitment as its two points. For both, a nonce is used at most once.
-/

namespace Mininet.Signing

open Codec Fallible

/-! ### The custody signer -/

section Custody

open Custody (CustodyError)

variable {κ ρ ν μ π σ : Type}

/-- What the signer calls of `frost_ristretto255`. -/
structure FrostSigning (κ ρ ν μ π σ : Type) where
  identifier : κ → Bytes
  verifyingShare : κ → Option Bytes
  verifyingKey : κ → Option Bytes
  commit : κ → ρ → ν × μ
  serialize : μ → Option Bytes
  deserializes : Bytes → Bool
  message : π → Bytes
  sign : π → ν → κ → Except String σ

/-- Serialised commitments are short: two points and a header. -/
def FrostSigning.Lawful (frost : FrostSigning κ ρ ν μ π σ) : Prop :=
  ∀ (commitment : μ) (bytes : Bytes), frost.serialize commitment = some bytes →
    bytes.length < 2 ^ 16

def custodySignerDomain : Bytes := utf8 "mininet/custody/durable-signer/v1"

def readCustodyCommitment : Reader (SignerError CustodyError) Bytes := do
  let length ← readCount (.journal "truncated nonce commitment length") .os UInt16 (2 ^ 16 - 1)
  take (.journal "truncated nonce journal record") length

def custodyFormat (frost : FrostSigning κ ρ ν μ π σ) : RecordFormat CustodyError Bytes where
  domain := utf8 "mininet/custody/nonce-record/v1"
  admits bytes := (utf8 "mininet/custody/nonce-record/v1").length + 32 ≤ bytes.length
  inadmissible := "invalid nonce journal record"
  commitmentBytes := framed UInt16
  readCommitment := readCustodyCommitment
  wellFormed := frost.deserializes
  malformed := "malformed persisted nonce commitment"

def custodySigner [Primitives] (frost : FrostSigning κ ρ ν μ π σ) :
    SignerKind CustodyError κ ρ ν μ Bytes π σ where
  format := custodyFormat frost
  recordLimit := 4096
  nameBytes signer commitment := utf8 "mininet/custody/nonce-name/v1" ++ signer.bytes ++ commitment
  accepts _ := pure ()
  manifest key := do
    let verifyingShare ← okOr (frost.verifyingShare key)
      (.journal "key package has an invalid verifying share")
    let verifyingKey ← okOr (frost.verifyingKey key)
      (.journal "key package has an invalid verifying key")
    pure (custodySignerDomain ++ framed UInt16 (frost.identifier key) ++
      framed UInt16 verifyingShare ++ framed UInt16 verifyingKey)
  bindingLimit := custodySignerDomain.length + 512
  round1Commit key rng := pure (frost.commit key rng)
  recorded commitment := okOr (frost.serialize commitment)
    (.journal "failed to serialize a freshly generated commitment")
  transcriptDigest package := blake3 (frost.message package)
  round2Sign key nonces package :=
    (frost.sign package nonces key).mapError fun message => .signing (.frost message)

lemma decodes_readCustodyCommitment :
    Decodes readCustodyCommitment (framed UInt16) fun bytes => bytes.length < 2 ^ 16 := by
  intro bs field rest
  rw [readCustodyCommitment, (decodes_readCount _ _ UInt16 (by decide)).bind]
  constructor
  · rintro ⟨length, hle, mid, rfl, h⟩
    obtain ⟨rfl, rfl⟩ := (decodes_take _ length _ _ _).mp h
    exact ⟨by rw [framed, List.append_assoc]; rfl, by omega⟩
  · rintro ⟨rfl, hle⟩
    exact ⟨field.length, by omega, field ++ rest, by rw [framed, List.append_assoc],
      (decodes_take _ _ _ _ _).mpr ⟨rfl, rfl⟩⟩

lemma lawful_custodyFormat (frost : FrostSigning κ ρ ν μ π σ) :
    (custodyFormat frost).Lawful fun bytes => bytes.length < 2 ^ 16 where
  decodes := decodes_readCustodyCommitment
  length_of_admits h := of_decide_eq_true h

end Custody

/-! ### The treasury's signer -/

section Treasury

open Treasury

variable {F M : Type} [Field F] [AddCommGroup M] [Module F M] [ScalarPrimitives F]
  [PointPrimitives M] [DecidableEq F] [DecidableEq M]

def frostSignerDomain : Bytes := utf8 "mini-treasury/durable-signer/v2\x00"

def nonceDomain : Bytes := utf8 "mini-treasury/nonce-record/v2\x00"

def nonceRecordBytes : ℕ := nonceDomain.length + 6 * 32 + 1

def readFrostCommitment : Reader (SignerError TreasuryError) (Hash × Hash) := do
  let hidingNonce ← Hash.read .os
  let bindingNonce ← Hash.read .os
  pure (hidingNonce, bindingNonce)

/-- The points of a record must be points. -/
def frostFormat (M : Type) [PointPrimitives M] : RecordFormat TreasuryError (Hash × Hash) where
  domain := nonceDomain
  admits bytes := bytes.length = nonceRecordBytes
  inadmissible := "invalid nonce journal record length/version"
  commitmentBytes := fun (hidingNonce, bindingNonce) => hidingNonce.bytes ++ bindingNonce.bytes
  readCommitment := readFrostCommitment
  wellFormed := fun (hidingNonce, bindingNonce) =>
    (decompress hidingNonce : Option M).isSome && (decompress bindingNonce : Option M).isSome
  malformed := "invalid nonce record fields"

def transcriptDigest [Primitives] (package : SigningPackage M) : Hash :=
  blake3 (utf8 "mini-treasury/signing-transcript/v1\x00" ++
    countBytes UInt64 package.message.length ++ package.message ++
    package.commitments.toList.flatMap fun (index, commitment) =>
      toBeBytes index ++ (compress commitment.hidingNonce).bytes ++
        (compress commitment.bindingNonce).bytes)

def frostSigner [Primitives] (F M : Type) [Field F] [AddCommGroup M] [Module F M]
    [ScalarPrimitives F] [PointPrimitives M] [DecidableEq F] [DecidableEq M] :
    SignerKind TreasuryError (KeyPackage F M) (List F) (SigningNonces F) (NonceCommitment M)
      (Hash × Hash) (SigningPackage M) F where
  format := frostFormat M
  recordLimit := nonceRecordBytes
  nameBytes := fun signer (hidingNonce, bindingNonce) =>
    utf8 "mini-treasury/nonce-name/v2\x00" ++ signer.bytes ++ hidingNonce.bytes ++ bindingNonce.bytes
  accepts key := failIf (key.index = 0 ∨ maxParticipants < key.index ∨
    key.groupPublicKey = 0 ∨ key.secretShare = 0) (.signing .invalidFrostParticipant)
  manifest key := pure (frostSignerDomain ++ toBeBytes key.index ++
    (compress key.groupPublicKey).bytes ++ (compress (key.secretShare • (basepoint : M))).bytes)
  bindingLimit := frostSignerDomain.length + 66
  round1Commit key rng := ((round1Commit key.index rng).map Prod.fst).mapError .signing
  recorded commitment := pure (compress commitment.hidingNonce, compress commitment.bindingNonce)
  transcriptDigest := transcriptDigest
  round2Sign key nonces package := (round2Sign key nonces package).mapError .signing

omit [DecidableEq F] [DecidableEq M] [Field F] [AddCommGroup M] [Module F M] [ScalarPrimitives F] in
lemma lawful_frostFormat : (frostFormat M).Lawful fun _ => True where
  decodes := by
    rintro bs ⟨hidingNonce, binding⟩ rest
    simp only [frostFormat, readFrostCommitment, (Hash.decodes_read _).bind, run_pure_ok]
    constructor
    · rintro ⟨h, -, _, rfl, b, -, _, rfl, heq, rfl⟩
      cases heq
      exact ⟨by rw [List.append_assoc], trivial⟩
    · rintro ⟨rfl, -⟩
      exact ⟨hidingNonce, trivial, _, List.append_assoc _ _ _, binding, trivial, rest, rfl, rfl, rfl⟩
  length_of_admits := by
    intro bytes h
    have hlength : bytes.length = nonceDomain.length + 6 * 32 + 1 := of_decide_eq_true h
    have hdomain : (frostFormat M).domain.length = nonceDomain.length := rfl
    omega

end Treasury

/-! ### A run to evaluate -/

/-- A library whose nonces are their own commitments and whose shares are messages. -/
def FrostSigning.sample : FrostSigning Unit UInt8 UInt8 UInt8 Bytes Bytes where
  identifier _ := [1]
  verifyingShare _ := some [2]
  verifyingKey _ := some [3]
  commit _ rng := (rng, rng)
  serialize commitment := some [commitment]
  deserializes _ := true
  message := id
  sign package _ _ := .ok package

/-- The system answers every call, and the directory is new. -/
def sampleOpening : OpenAnswers where
  locked := true
  listing := some [.lock]
  readable _ := true
  existsKnown := true
  create := .replaced
  establish := .replaced
  burn _ := .replaced
  random32 := some .zero

def sampleAnswers : CallAnswers := ⟨fun _ => true, true, .replaced⟩

/-- A new directory is opened and a commitment made. -/
def sampleCommitted [Primitives] : World Unit UInt8 UInt8 Bytes Bytes :=
  ((World.start fun _ => none).step (custodySigner .sample) (.openAt () sampleOpening)).step
    (custodySigner .sample) (.commit 7 sampleAnswers)

lemma run_sampleCommitted [Primitives] : Run (custodySigner .sample) sampleCommitted := by
  have hopen : Run (custodySigner .sample) ((World.start fun _ => none).step
      (custodySigner .sample) (.openAt () sampleOpening)) :=
    .step (.start _) (by rintro listing - name ⟨⟩)
  exact hopen.step trivial

/-- The commitment is answered. -/
def sampleSigned [Primitives] : World Unit UInt8 UInt8 Bytes Bytes :=
  sampleCommitted.step (custodySigner .sample) (.sign 0 [9] sampleAnswers)

/-- For both signers, in every run over one directory, a commitment is answered with at most one
share, it was recorded before it was returned, and nonces of an earlier opening yield none. -/
theorem nonces_used_once [Primitives] :
    (∀ (κ ρ ν μ π σ : Type) (frost : FrostSigning κ ρ ν μ π σ), frost.Lawful →
      ∀ w, Run (custodySigner frost) w → Safe (custodySigner frost) w) ∧
    ∀ (F M : Type) [Field F] [AddCommGroup M] [Module F M] [Treasury.ScalarPrimitives F]
      [Treasury.PointPrimitives M] [DecidableEq F] [DecidableEq M],
      ∀ w, Run (frostSigner F M) w → Safe (frostSigner F M) w := by
  constructor
  · intro κ ρ ν μ π σ frost hfrost w hrun
    refine (hrun.invariant (lawful_custodyFormat frost) fun commitment bytes hrecorded => ?_).safe
    exact hfrost commitment bytes (okOr_ok.mp hrecorded)
  · intro F M _ _ _ _ _ _ _ w hrun
    exact (hrun.invariant lawful_frostFormat fun _ _ _ => trivial).safe

theorem sample_nonces_used_once :
    letI := Primitives.sample
    sampleSigned.shares.length = 1 ∧ Safe (custodySigner .sample) sampleSigned := by
  let := Primitives.sample
  have hshort : FrostSigning.sample.Lawful := by
    rintro commitment bytes ⟨⟩
    simp
  exact ⟨by decide +kernel,
    nonces_used_once.1 _ _ _ _ _ _ .sample hshort _ (run_sampleCommitted.step trivial)⟩

end Mininet.Signing

import Mininet.Aead
import Mininet.Durable
import Mininet.Identity.Keys
import Mininet.Lib.Stateful
import Mininet.Settlement.CreditPermit

/-!
# The journal of an offline borrower

A wallet that spends a permit offline keeps the IOUs it signed in one encrypted file, under one lock
for all its processes. What is left of the allowance is computed from the file each time, and an IOU
is handed out when it is in the file. `Recorded` says what such a file holds; every call that writes
adds one IOU to it or leaves it alone, in whatever order processes get the lock and however their
writes end.
-/

namespace Mininet

open Codec Fallible Stateful Identity List

/-! ### IOUs on the wire -/

namespace SignedCreditIou

def encode (iou : SignedCreditIou) : Except CreditSignatureError Bytes := do
  failIf (iou.signature.suite ≠ .default) .unsupportedSuite
  return iou.terms.message ++ iou.signature.bytes

/-- Read the terms that follow the domain. -/
def readTerms : Reader CreditSignatureError CreditIouTerms := do
  let permitId ← Hash.read .malformedEncoding
  let sequence ← word .malformedEncoding UInt64
  let payeeCommitment ← Hash.read .malformedEncoding
  let amountMicro ← word .malformedEncoding UInt64
  return { permitId, sequence, payeeCommitment, amountMicro }

def decode (bytes : Bytes) : Except CreditSignatureError SignedCreditIou := do
  failIf (bytes.length ≠ iouDomain.length + 32 + 8 + 32 + 8 + 64 ∨
    bytes.take iouDomain.length ≠ iouDomain) .malformedEncoding
  let (terms, rest) ← readTerms.run (bytes.drop iouDomain.length)
  let signature ← (Signature.fromSuiteBytes .default rest).mapError fun _ => .malformedEncoding
  return { terms, signature }

/-- The bytes of an IOU under the default suite. -/
def wireBytes (iou : SignedCreditIou) : Bytes := iou.terms.message ++ iou.signature.bytes

variable {iou : SignedCreditIou}

lemma encode_eq (h : iou.signature.suite = .default) : iou.encode = .ok iou.wireBytes := by
  simp [encode, h, failIf, wireBytes]

lemma reads_readTerms (t : CreditIouTerms) : Reads readTerms
    (t.permitId.bytes ++ (toBeBytes t.sequence ++ (t.payeeCommitment.bytes ++
      toBeBytes t.amountMicro))) t :=
  (Hash.reads_read _ _).bind ((reads_word _ _).bind ((Hash.reads_read _ _).bind
    (reads_word _ _).bind_pure))

lemma length_wireBytes (h : iou.signature.suite = .default) :
    iou.wireBytes.length = iouDomain.length + 32 + 8 + 32 + 8 + 64 := by
  have hsignature : iou.signature.bytes.length = 64 := by
    rw [iou.signature.length_eq, h]
    rfl
  simp [wireBytes, CreditIouTerms.message, hsignature]

/-- What is encoded is read back. -/
lemma decode_wireBytes (h : iou.signature.suite = .default) : decode iou.wireBytes = .ok iou := by
  obtain ⟨terms, signature⟩ := iou
  have hdrop : (wireBytes ⟨terms, signature⟩).drop iouDomain.length =
      (terms.permitId.bytes ++ (toBeBytes terms.sequence ++ (terms.payeeCommitment.bytes ++
        toBeBytes terms.amountMicro))) ++ signature.bytes := by
    rw [wireBytes, CreditIouTerms.message, append_assoc, drop_left]
  have htake : (wireBytes ⟨terms, signature⟩).take iouDomain.length = iouDomain := by
    rw [wireBytes, CreditIouTerms.message, append_assoc, take_left]
  refine failIf_bind_ok.mpr ⟨by simp [htake, length_wireBytes h], ?_⟩
  rw [hdrop]
  refine bind_ok.mpr ⟨_, reads_readTerms terms signature.bytes, ?_⟩
  refine bind_ok.mpr ⟨signature, mapError_ok.mpr ?_, rfl⟩
  have hsuite : SignatureSuite.default = signature.suite := h.symm
  rw [hsuite, Signature.fromSuiteBytes_bytes]

end SignedCreditIou

section

variable [KeyPrimitives]

def signCreditIou (borrower : SigningKey) (permit : VerifiedCreditPermit) (terms : CreditIouTerms) :
    Except CreditSignatureError SignedCreditIou := do
  failIf (borrower.suite ≠ .default) .unsupportedSuite
  failIf (borrower.verifyingKey.bytes ≠ permit.terms.borrowerKey.bytes) .wrongBorrower
  terms.validate permit
  -- a key of the default suite signs
  let signature ← okOr (borrower.sign terms.message) .unsupportedSuite
  return { terms, signature }

end

/-! ### The journal -/

/-- How much of a permit has been signed away, and the sequence number of the next IOU. -/
structure CreditUse where
  signedMicro : UInt64
  nextSequence : UInt64
  deriving DecidableEq

def CreditUse.default : CreditUse := ⟨0, 0⟩

/-- The files of a journal: the encrypted IOUs, and the mark that they were once begun. -/
inductive CreditFile where
  | credit
  | initialized
  deriving DecidableEq

abbrev CreditDirectory := CreditFile → Option Bytes

/-- What a process holds of a journal; the directory is passed to each call. -/
structure FileCreditJournal where
  permit : VerifiedCreditPermit
  key : AeadKey

namespace FileCreditJournal

def domain : Bytes := utf8 "mininet/credit-journal/v1"

def maxCoupons : ℕ := 4096

def maxBytes : ℕ := 1024 * 1024

def aad (j : FileCreditJournal) : Bytes := domain ++ j.permit.id.bytes

variable [KeyPrimitives]

/-- Read the IOUs that follow, with room for `room` of them, and add them up. -/
def readCoupons (permit : VerifiedCreditPermit) : ℕ → CreditUse → Bytes →
    Except CreditSignatureError (CreditUse × List SignedCreditIou)
  | _, usage, []         => return (usage, [])
  | 0, _, _              => throw .journalFailure
  | room + 1, usage, plain => do
    let (bytes, rest) ← (readFramed .journalFailure .journalFailure UInt32 (2 ^ 32 - 1)).run plain
    let coupon ← (SignedCreditIou.decode bytes).mapError fun _ => .journalFailure
    let _ ← (verifyCreditIou coupon permit permit.terms.issuedHeight).mapError fun _ =>
      .journalFailure
    failIf (coupon.terms.sequence ≠ usage.nextSequence) .journalFailure
    let signedMicro ← okOr (checkedAdd64 usage.signedMicro coupon.terms.amountMicro) .journalFailure
    failIf (permit.terms.limitMicro < signedMicro) .journalFailure
    let (usage, coupons) ← readCoupons permit room ⟨signedMicro, usage.nextSequence + 1⟩ rest
    return (usage, coupon :: coupons)

variable [AeadPrimitives] (j : FileCreditJournal)

def read (files : CreditDirectory) :
    Except CreditSignatureError (CreditUse × List SignedCreditIou) := do
  let content ← okOr (files .credit) .journalFailure
  let bytes := content.take (maxBytes + 1)
  failIf (bytes.length < 28 ∨ maxBytes < bytes.length) .journalFailure
  let nonce : AeadNonce := Vector.ofFn fun i => bytes.getD i 0
  let plain ← okOr (j.key.decrypt nonce (bytes.drop 12) j.aad) .journalFailure
  readCoupons j.permit maxCoupons .default plain

/-- Replace the file. The nonce is there when the system had entropy to give. -/
def write (coupons : List SignedCreditIou) (nonce : Option AeadNonce) (outcome : Replacement) :
    InPlace CreditDirectory CreditSignatureError Unit := do
  let encoded ← check (coupons.mapM SignedCreditIou.encode)
  let plain := encoded.flatMap (framed UInt32)
  let nonce ← check (okOr nonce .journalFailure)
  let ciphertext ← check (okOr (j.key.encrypt nonce plain j.aad) .journalFailure)
  modify (outcome.files .credit (nonce.toList ++ ciphertext))
  check (failIf (outcome ≠ .replaced) .journalFailure)

/-- Begin a journal for a new permit, where there is none and never was one. -/
def create (permit : VerifiedCreditPermit) (key : AeadKey) (marker : Replacement)
    (nonce : Option AeadNonce) (outcome : Replacement) :
    InPlace CreditDirectory CreditSignatureError FileCreditJournal := do
  let journal : FileCreditJournal := { permit, key }
  let files ← get
  check (failIf (files .credit ≠ none) .journalFailure)
  check (failIf (files .initialized ≠ none) .journalFailure)
  set (marker.files .initialized [] files)
  check (failIf (marker ≠ .replaced) .journalFailure)
  journal.write [] nonce outcome
  return journal

/-- Take up a journal that is there. -/
def openAt (permit : VerifiedCreditPermit) (key : AeadKey) (files : CreditDirectory) :
    Except CreditSignatureError FileCreditJournal := do
  let journal : FileCreditJournal := { permit, key }
  let _ ← journal.read files
  return journal

def outbox (files : CreditDirectory) : Except CreditSignatureError (List SignedCreditIou) := do
  return (← j.read files).2

def load (permitId : Hash) (files : CreditDirectory) : Except CreditSignatureError CreditUse := do
  failIf (permitId ≠ j.permit.id) .wrongPermit
  return (← j.read files).1

def compareAndRecord (expected next : CreditUse) (coupon : SignedCreditIou)
    (nonce : Option AeadNonce) (outcome : Replacement) :
    InPlace CreditDirectory CreditSignatureError Bool := do
  let (usage, coupons) ← check (j.read (← get))
  if usage ≠ expected then return false
  else
    check (failIf (maxCoupons ≤ coupons.length) .journalFailure)
    let _ ← check (verifyCreditIou coupon j.permit j.permit.terms.issuedHeight)
    check (failIf (coupon.terms.sequence ≠ usage.nextSequence ∨
      checkedAdd64 usage.nextSequence 1 ≠ some next.nextSequence ∨
      checkedAdd64 usage.signedMicro coupon.terms.amountMicro ≠ some next.signedMicro ∨
      j.permit.terms.limitMicro < next.signedMicro) .journalFailure)
    j.write (coupons ++ [coupon]) nonce outcome
    return true

end FileCreditJournal

/-! ### Signing the next IOU -/

/-- What a call that signs holds on to between its two uses of the journal. -/
structure PendingIou where
  prior : CreditUse
  next : CreditUse
  coupon : SignedCreditIou

namespace FileCreditJournal

variable [KeyPrimitives] [AeadPrimitives] (j : FileCreditJournal)

/-- The first half of `signNextCreditIou`: look at what is left and sign. -/
def prepareNextCreditIou (borrower : SigningKey) (permit : VerifiedCreditPermit)
    (amountMicro : UInt64) (payeeCommitment : Hash) (files : CreditDirectory) :
    Except CreditSignatureError PendingIou := do
  let prior ← j.load permit.id files
  let signedMicro ← okOr (checkedAdd64 prior.signedMicro amountMicro) .allowanceExhausted
  failIf (permit.terms.limitMicro < signedMicro) .allowanceExhausted
  let nextSequence ← okOr (checkedAdd64 prior.nextSequence 1) .allowanceExhausted
  let coupon ← signCreditIou borrower permit
    ⟨permit.id, prior.nextSequence, payeeCommitment, amountMicro⟩
  return ⟨prior, ⟨signedMicro, nextSequence⟩, coupon⟩

/-- The second half of `signNextCreditIou`: record what was signed, and hand it out. -/
def recordNextCreditIou (pending : PendingIou) (nonce : Option AeadNonce) (outcome : Replacement) :
    InPlace CreditDirectory CreditSignatureError SignedCreditIou := do
  let recorded ← j.compareAndRecord pending.prior pending.next pending.coupon nonce outcome
  check (failIf (recorded = false) .journalFailure)
  return pending.coupon

/-- A call that signs, when no other process gets the lock between its halves. -/
def signNextCreditIou (borrower : SigningKey) (permit : VerifiedCreditPermit) (amountMicro : UInt64)
    (payeeCommitment : Hash) (nonce : Option AeadNonce) (outcome : Replacement) :
    InPlace CreditDirectory CreditSignatureError SignedCreditIou := do
  let pending ← check
    (j.prepareNextCreditIou borrower permit amountMicro payeeCommitment (← get))
  j.recordNextCreditIou pending nonce outcome

end FileCreditJournal

/-! ### What a journal file holds -/

lemma suite_of_verifyCreditIou [Primitives] {iou : SignedCreditIou} {permit : VerifiedCreditPermit}
    {height : UInt64} {v : VerifiedCreditIou} (h : verifyCreditIou iou permit height = .ok v) :
    iou.signature.suite = .default :=
  not_not.mp (failIf_bind_ok.mp h).1

/-- What some IOUs add up to. -/
def SignedCreditIou.total (coupons : List SignedCreditIou) : ℕ :=
  (coupons.map fun c => c.terms.amountMicro.toNat).sum

/-- The use that some IOUs make of a permit. -/
structure CreditUse.Counts (usage : CreditUse) (coupons : List SignedCreditIou) : Prop where
  signedMicro_eq : usage.signedMicro.toNat = SignedCreditIou.total coupons
  nextSequence_eq : usage.nextSequence.toNat = coupons.length

namespace FileCreditJournal

/-- The sequence numbers of some IOUs. -/
def sequences (coupons : List SignedCreditIou) : List ℕ :=
  coupons.map fun c => c.terms.sequence.toNat

/-- The plaintext of a journal. -/
def plaintext (coupons : List SignedCreditIou) : Bytes :=
  coupons.flatMap fun c => framed UInt32 c.wireBytes

variable [KeyPrimitives]

/-- IOUs that a journal may hold: each verifies, they are numbered from zero on, and together they
stay within the permit and the file. -/
structure Recorded (permit : VerifiedCreditPermit) (coupons : List SignedCreditIou) : Prop where
  verified : ∀ c ∈ coupons, ∃ v, verifyCreditIou c permit permit.terms.issuedHeight = .ok v
  sequences_eq : sequences coupons = List.range coupons.length
  total_le : SignedCreditIou.total coupons ≤ permit.terms.limitMicro.toNat
  length_le : coupons.length ≤ maxCoupons

variable {permit : VerifiedCreditPermit} {nonce : Option AeadNonce} {outcome : Replacement}

lemma recorded_nil (permit : VerifiedCreditPermit) : Recorded permit [] where
  verified := by simp
  sequences_eq := rfl
  total_le := Nat.zero_le _
  length_le := Nat.zero_le _

/-- One more IOU, with the next number and within what is left. -/
lemma Recorded.append (h : Recorded permit coupons) {c : SignedCreditIou} {v : VerifiedCreditIou}
    (hverified : verifyCreditIou c permit permit.terms.issuedHeight = .ok v)
    (hsequence : c.terms.sequence.toNat = coupons.length)
    (htotal : SignedCreditIou.total coupons + c.terms.amountMicro.toNat ≤ permit.terms.limitMicro.toNat)
    (hlength : coupons.length < maxCoupons) : Recorded permit (coupons ++ [c]) where
  verified := by
    intro d hd
    rcases mem_append.mp hd with hd | hd
    · exact h.verified d hd
    · exact ⟨v, mem_singleton.mp hd ▸ hverified⟩
  sequences_eq := by
    have hbefore := h.sequences_eq
    simp only [sequences] at hbefore ⊢
    rw [map_append, hbefore, length_append, length_singleton, range_succ]
    simp [hsequence]
  total_le := by simpa [SignedCreditIou.total] using htotal
  length_le := by simpa using hlength

/-! ### Reading what was written -/

/-- Reading IOUs that continue a count. The induction follows the reader, one IOU at a time. -/
lemma exists_readCoupons (room : ℕ) (usage : CreditUse)
    (hverified : ∀ c ∈ coupons, ∃ v, verifyCreditIou c permit permit.terms.issuedHeight = .ok v)
    (hsequences : sequences coupons = List.range' usage.nextSequence.toNat coupons.length)
    (htotal : usage.signedMicro.toNat + SignedCreditIou.total coupons ≤ permit.terms.limitMicro.toNat)
    (hroom : coupons.length ≤ room) (hfit : usage.nextSequence.toNat + coupons.length < 2 ^ 64) :
    ∃ usage', readCoupons permit room usage (plaintext coupons) = .ok (usage', coupons) ∧
      usage'.signedMicro.toNat = usage.signedMicro.toNat + SignedCreditIou.total coupons ∧
      usage'.nextSequence.toNat = usage.nextSequence.toNat + coupons.length := by
  induction coupons generalizing room usage with
  | nil => exact ⟨usage, by cases room <;> rfl, rfl, rfl⟩
  | cons c coupons ih =>
    obtain ⟨⟨v, hv⟩, hverified⟩ := forall_mem_cons.mp hverified
    have hsuite := suite_of_verifyCreditIou hv
    obtain ⟨room, rfl⟩ : ∃ n, room = n + 1 := ⟨room - 1, by simp at hroom; omega⟩
    simp only [sequences, map_cons, length_cons, List.range'_succ, List.cons.injEq] at hsequences
    simp only [SignedCreditIou.total, map_cons, sum_cons] at htotal
    simp only [length_cons] at hroom hfit
    have hlimit := permit.terms.limitMicro.toNat_lt
    -- the count after this IOU
    have hadd : checkedAdd64 usage.signedMicro c.terms.amountMicro =
        some (usage.signedMicro + c.terms.amountMicro) := if_pos (by omega)
    have hsigned := checkedAdd64_some.mp hadd
    have hnext : (usage.nextSequence + 1).toNat = usage.nextSequence.toNat + 1 := by
      rw [UInt64.toNat_add, UInt64.toNat_one, Nat.mod_eq_of_lt (by omega)]
    obtain ⟨usage', hread, hmicro, hsequence⟩ :=
      ih room ⟨usage.signedMicro + c.terms.amountMicro, usage.nextSequence + 1⟩ hverified
        (by simpa [sequences, hnext] using hsequences.2)
        (by simp only [SignedCreditIou.total]; omega) (by omega) (by simp only [hnext]; omega)
    refine ⟨usage', ?_, ?_, ?_⟩
    · have hlength := SignedCreditIou.length_wireBytes hsuite
      have hdomain : iouDomain.length = 37 := by decide
      rw [plaintext, flatMap_cons, readCoupons]
      · refine bind_ok.mpr ⟨_, reads_framed _ _ ?_ ?_ _, ?_⟩
        · rw [hlength, hdomain]
          decide
        · rw [hlength, hdomain]
          decide
        · refine bind_ok.mpr ⟨c, mapError_ok.mpr (SignedCreditIou.decode_wireBytes hsuite), ?_⟩
          refine bind_ok.mpr ⟨v, mapError_ok.mpr hv, ?_⟩
          refine failIf_bind_ok.mpr ⟨not_not.mpr (UInt64.toNat_inj.mp hsequences.1), ?_⟩
          refine bind_ok.mpr ⟨_, okOr_ok.mpr hadd, ?_⟩
          refine failIf_bind_ok.mpr ⟨?_, bind_ok.mpr ⟨_, hread, rfl⟩⟩
          rw [UInt64.lt_iff_toNat_lt, ← hsigned]
          omega
      · intro hnil
        have hempty := congrArg List.length hnil
        simp at hempty
    · simp only [SignedCreditIou.total, map_cons, sum_cons] at hmicro ⊢
      omega
    · simp only [hnext, length_cons] at hsequence ⊢
      omega

lemma length_plaintext
    (hverified : ∀ c ∈ coupons, ∃ v, verifyCreditIou c permit permit.terms.issuedHeight = .ok v) :
    (plaintext coupons).length = coupons.length * 185 := by
  have hdomain : iouDomain.length = 37 := by decide
  induction coupons with
  | nil => rfl
  | cons c coupons ih =>
    obtain ⟨⟨v, hv⟩, hverified⟩ := forall_mem_cons.mp hverified
    have hlength := SignedCreditIou.length_wireBytes (suite_of_verifyCreditIou hv)
    have hrest := ih hverified
    rw [plaintext] at hrest ⊢
    rw [flatMap_cons, length_append, hrest, length_framed, hlength, hdomain, length_cons]
    omega

variable [AeadPrimitives] (j : FileCreditJournal)

/-- The file of a journal holds some IOUs. -/
structure Holds (files : CreditDirectory) (coupons : List SignedCreditIou) : Prop where
  recorded : Recorded j.permit coupons
  content : ∃ (nonce : AeadNonce) (ciphertext : Bytes),
    files .credit = some (nonce.toList ++ ciphertext) ∧
      j.key.encrypt nonce (plaintext coupons) j.aad = some ciphertext

variable [LawfulAead] {j} {files files' : CreditDirectory} {coupons : List SignedCreditIou}

/-- What a journal holds is read back: the limits of the reader are those of the writer. -/
lemma Holds.exists_read (h : j.Holds files coupons) :
    ∃ usage, j.read files = .ok (usage, coupons) ∧ usage.Counts coupons := by
  obtain ⟨nonce, ciphertext, hfile, hencrypt⟩ := h.content
  have hplain := length_plaintext h.recorded.verified
  have hcipher := AeadKey.length_of_encrypt hencrypt
  have hlength : (nonce.toList ++ ciphertext).length = 28 + coupons.length * 185 := by
    simp [hcipher, hplain]
    omega
  have hcount := h.recorded.length_le
  simp only [maxCoupons] at hcount
  have htake : (nonce.toList ++ ciphertext).take (maxBytes + 1) = nonce.toList ++ ciphertext :=
    take_of_length_le (by rw [hlength, maxBytes]; omega)
  have hnonce : (Vector.ofFn fun i => (nonce.toList ++ ciphertext).getD i 0) = nonce := by
    apply Vector.ext
    intro i hi
    simp [List.getElem?_append_left]
  obtain ⟨usage, hread, hmicro, hnext⟩ := exists_readCoupons maxCoupons .default
    h.recorded.verified
    (by rw [h.recorded.sequences_eq, range_eq_range']; rfl)
    (by simpa [CreditUse.default] using h.recorded.total_le) h.recorded.length_le
    (by simp [CreditUse.default]; omega)
  refine ⟨usage, bind_ok.mpr ⟨_, okOr_ok.mpr hfile, ?_⟩, ?_, ?_⟩
  · rw [htake]
    refine failIf_bind_ok.mpr ⟨by rw [hlength, maxBytes]; omega, ?_⟩
    rw [hnonce]
    refine bind_ok.mpr ⟨plaintext coupons, okOr_ok.mpr ?_, hread⟩
    rw [drop_left' (by simp)]
    exact AeadKey.decrypt_of_encrypt hencrypt
  · simpa [CreditUse.default] using hmicro
  · simpa [CreditUse.default] using hnext

omit [LawfulAead] in
/-- Writing leaves the file alone, or with what was to be written. -/
lemma write_on (h : Recorded j.permit coupons) {r : Except CreditSignatureError Unit}
    (hon : (j.write coupons nonce outcome).on files = (r, files')) :
    (files' = files ∧ r ≠ .ok ()) ∨ j.Holds files' coupons := by
  have hsuite : ∀ c ∈ coupons, c.signature.suite = .default := fun c hc =>
    suite_of_verifyCreditIou (h.verified c hc).choose_spec
  have hencode : coupons.mapM SignedCreditIou.encode = .ok (coupons.map SignedCreditIou.wireBytes) :=
    mapM_ok fun c hc => SignedCreditIou.encode_eq (hsuite c hc)
  obtain ⟨e, -, rfl, rfl⟩ | ⟨encoded, hencoded, hon⟩ := on_check_bind.mp hon
  · exact .inl ⟨rfl, by simp⟩
  rw [hencode] at hencoded
  cases hencoded
  obtain ⟨e, -, rfl, rfl⟩ | ⟨nonce, -, hon⟩ := on_check_bind.mp hon
  · exact .inl ⟨rfl, by simp⟩
  obtain ⟨e, -, rfl, rfl⟩ | ⟨ciphertext, hencrypt, hon⟩ := on_check_bind.mp hon
  · exact .inl ⟨rfl, by simp⟩
  rw [on_modify_bind, on_check] at hon
  cases hon
  have hplain : (coupons.map SignedCreditIou.wireBytes).flatMap (framed UInt32) =
      plaintext coupons := flatMap_map _ _ _
  rw [okOr_ok, hplain] at hencrypt
  match outcome with
  | .failed false => exact .inl ⟨rfl, by simp [failIf]⟩
  | .failed true => exact .inr ⟨h, nonce, ciphertext, by simp [Replacement.files], hencrypt⟩
  | .replaced => exact .inr ⟨h, nonce, ciphertext, by simp [Replacement.files], hencrypt⟩

/-- Comparing and recording leaves the file alone, or adds the IOU. -/
lemma compareAndRecord_on (h : j.Holds files coupons) {expected next : CreditUse}
    {coupon : SignedCreditIou} {r : Except CreditSignatureError Bool}
    (hon : (j.compareAndRecord expected next coupon nonce outcome).on files = (r, files')) :
    (files' = files ∧ r ≠ .ok true) ∨ j.Holds files' (coupons ++ [coupon]) := by
  obtain ⟨usage, hread, hcounts⟩ := h.exists_read
  rw [compareAndRecord, on_get_bind, hread] at hon
  obtain ⟨e, he, -⟩ | ⟨found, hfound, hon⟩ := on_check_bind.mp hon
  · cases he
  cases hfound
  dsimp only at hon
  split_ifs at hon with hexpected
  · cases hon
    exact .inl ⟨rfl, by simp⟩
  obtain ⟨e, -, rfl, rfl⟩ | ⟨⟨⟩, hroom, hon⟩ := on_check_bind.mp hon
  · exact .inl ⟨rfl, by simp⟩
  obtain ⟨e, -, rfl, rfl⟩ | ⟨v, hverified, hon⟩ := on_check_bind.mp hon
  · exact .inl ⟨rfl, by simp⟩
  obtain ⟨e, -, rfl, rfl⟩ | ⟨⟨⟩, hnext, hon⟩ := on_check_bind.mp hon
  · exact .inl ⟨rfl, by simp⟩
  simp only [failIf_ok, not_or, not_not, not_le] at hroom hnext
  obtain ⟨hsequence, -, htotal, hlimit⟩ := hnext
  -- the IOU continues what the file holds
  have hrecorded : Recorded j.permit (coupons ++ [coupon]) := by
    refine h.recorded.append hverified ?_ ?_ hroom
    · rw [hsequence, hcounts.nextSequence_eq]
    · rw [← hcounts.signedMicro_eq, checkedAdd64_some.mp htotal]
      exact UInt64.le_iff_toNat_le.mp (UInt64.not_lt.mp hlimit)
  rw [on_bind] at hon
  rcases hwrite : (j.write (coupons ++ [coupon]) nonce outcome).on files with ⟨_ | _, written⟩
  all_goals
    rw [hwrite] at hon
    cases hon
  · exact (write_on hrecorded hwrite).imp (fun hsame => ⟨hsame.1, by simp⟩) id
  · exact (write_on hrecorded hwrite).imp (fun hsame => absurd rfl hsame.2) id

omit [LawfulAead] in
/-- Without a file there is nothing to compare with. -/
lemma compareAndRecord_on_of_none (h : files .credit = none) (expected next : CreditUse)
    (coupon : SignedCreditIou) (nonce : Option AeadNonce) (outcome : Replacement) :
    (j.compareAndRecord expected next coupon nonce outcome).on files =
      (.error .journalFailure, files) := by
  have hread : j.read files = .error .journalFailure := by
    rw [read, h]
    rfl
  rw [compareAndRecord, on_get_bind, hread]
  rfl

/-- The second half of a call that signs: the file is left alone and nothing is handed out, or the
IOU is added and nothing else is handed out. -/
lemma recordNextCreditIou_on (h : j.Holds files coupons) {pending : PendingIou}
    {r : Except CreditSignatureError SignedCreditIou}
    (hon : (j.recordNextCreditIou pending nonce outcome).on files = (r, files')) :
    (∀ c, r = .ok c → c = pending.coupon) ∧
      ((files' = files ∧ ∀ c, r ≠ .ok c) ∨ j.Holds files' (coupons ++ [pending.coupon])) := by
  rw [recordNextCreditIou, on_bind] at hon
  rcases hrecord : (j.compareAndRecord pending.prior pending.next pending.coupon nonce outcome).on
    files with ⟨e | recorded, after⟩
  all_goals
    rw [hrecord] at hon
    have hcases := compareAndRecord_on h hrecord
  · cases hon
    exact ⟨by simp, hcases.imp (fun hsame => ⟨hsame.1, by simp⟩) id⟩
  cases recorded with
  | false =>
    cases hon
    exact ⟨by simp, hcases.imp (fun hsame => ⟨hsame.1, by simp⟩) id⟩
  | true =>
    cases hon
    refine ⟨?_, hcases.imp (fun hsame => absurd rfl hsame.2) id⟩
    rintro c hc
    cases hc
    rfl

omit [LawfulAead] in
/-- Beginning a journal leaves the file alone, or with no IOU in it. -/
lemma create_on {key : AeadKey} {marker : Replacement}
    {r : Except CreditSignatureError FileCreditJournal}
    (hon : (create permit key marker nonce outcome).on files = (r, files')) :
    files' .credit = files .credit ∨
      (files .credit = none ∧ Holds ⟨permit, key⟩ files' []) := by
  rw [create, on_get_bind] at hon
  obtain ⟨e, -, -, rfl⟩ | ⟨⟨⟩, hnone, hon⟩ := on_check_bind.mp hon
  · exact .inl rfl
  obtain ⟨e, -, -, rfl⟩ | ⟨-, -, hon⟩ := on_check_bind.mp hon
  · exact .inl rfl
  rw [on_set_bind] at hon
  have hmarker : marker.files .initialized [] files .credit = files .credit := by
    match marker with
    | .failed false => rfl
    | .failed true => simp [Replacement.files]
    | .replaced => simp [Replacement.files]
  obtain ⟨e, -, -, rfl⟩ | ⟨-, -, hon⟩ := on_check_bind.mp hon
  · exact .inl hmarker
  rw [on_bind] at hon
  rcases hwrite : (write ⟨permit, key⟩ [] nonce outcome).on (marker.files .initialized [] files)
    with ⟨_ | _, written⟩
  all_goals
    rw [hwrite] at hon
    cases hon
    rcases write_on (recorded_nil _) hwrite with ⟨rfl, -⟩ | hholds
    · exact .inl hmarker
    · exact .inr ⟨by simpa using hnone, hholds⟩

end FileCreditJournal

/-! ### Runs -/

namespace CreditWallet

/-- What a process is doing. -/
inductive Process where
  | stopped
  | ready
  /-- It is between the two halves of a call that signs. -/
  | signing (pending : PendingIou)

/-- A directory, the processes that share it, and the IOUs that calls returned, in order. -/
structure World where
  files : CreditDirectory
  processes : ℕ → Process
  returned : List SignedCreditIou

/-- A directory nobody has used. -/
def World.new : World := ⟨fun _ => none, fun _ => .stopped, []⟩

/-- What the processes do, each under the lock, with what the system made of it. -/
inductive Action where
  | create (process : ℕ) (marker : Replacement) (nonce : Option AeadNonce) (outcome : Replacement)
  | openAt (process : ℕ)
  | prepareNext (process : ℕ) (borrower : SigningKey) (permit : VerifiedCreditPermit)
      (amountMicro : UInt64) (payeeCommitment : Hash)
  | recordNext (process : ℕ) (nonce : Option AeadNonce) (outcome : Replacement)
  | stop (process : ℕ)

namespace World

variable [KeyPrimitives] [AeadPrimitives] (j : FileCreditJournal)

/-- One action. A call that a process is in no position to make is not made. -/
def step (w : World) : Action → World
  | .create i marker nonce outcome => match w.processes i with
    | .stopped => match (FileCreditJournal.create j.permit j.key marker nonce outcome).on w.files with
      | (.ok _, files)    => { w with files, processes := Function.update w.processes i .ready }
      | (.error _, files) => { w with files }
    | _ => w
  | .openAt i => match w.processes i with
    | .stopped => match FileCreditJournal.openAt j.permit j.key w.files with
      | .ok _    => { w with processes := Function.update w.processes i .ready }
      | .error _ => w
    | _ => w
  | .prepareNext i borrower permit amountMicro payeeCommitment => match w.processes i with
    | .ready =>
      match j.prepareNextCreditIou borrower permit amountMicro payeeCommitment w.files with
      | .ok pending => { w with processes := Function.update w.processes i (.signing pending) }
      | .error _    => w
    | _ => w
  | .recordNext i nonce outcome => match w.processes i with
    | .signing pending => match (j.recordNextCreditIou pending nonce outcome).on w.files with
      | (.ok coupon, files) =>
        ⟨files, Function.update w.processes i .ready, w.returned ++ [coupon]⟩
      | (.error _, files)   => ⟨files, Function.update w.processes i .ready, w.returned⟩
    | _ => w
  | .stop i => { w with processes := Function.update w.processes i .stopped }

def run (w : World) (actions : List Action) : World := actions.foldl (step j) w

/-- The file is not there and nothing was handed out, or it holds all that was handed out. -/
def Sound (w : World) : Prop :=
  (w.files .credit = none ∧ w.returned = []) ∨
    ∃ coupons, j.Holds w.files coupons ∧ w.returned.Sublist coupons

variable {w : World}

lemma sound_new : new.Sound j := .inl ⟨rfl, rfl⟩

/-- Only the file and what was handed out matter. -/
lemma Sound.congr {j : FileCreditJournal} {w' : World} (h : w.Sound j)
    (hfile : w'.files .credit = w.files .credit) (hreturned : w'.returned = w.returned) :
    w'.Sound j := by
  rcases h with ⟨hnone, hnil⟩ | ⟨coupons, hholds, hsublist⟩
  · exact .inl ⟨hfile.trans hnone, hreturned.trans hnil⟩
  · exact .inr ⟨coupons, ⟨hholds.recorded, hfile ▸ hholds.content⟩, hreturned ▸ hsublist⟩

variable [LawfulAead] {j}

omit [LawfulAead] in
lemma Sound.create (h : w.Sound j) (i : ℕ) (marker : Replacement) (nonce : Option AeadNonce)
    (outcome : Replacement) : (w.step j (.create i marker nonce outcome)).Sound j := by
  simp only [step]
  cases w.processes i with
  | ready => exact h
  | signing pending => exact h
  | stopped =>
    rcases hcreate : (FileCreditJournal.create j.permit j.key marker nonce outcome).on w.files with
      ⟨e | journal, files⟩
    all_goals
      rcases FileCreditJournal.create_on hcreate with hsame | ⟨hnone, hholds⟩
      · exact h.congr hsame rfl
      · rcases h with ⟨-, hnil⟩ | ⟨coupons, hold, -⟩
        · exact .inr ⟨[], hholds, by simp [hnil]⟩
        · obtain ⟨_, _, hfile, -⟩ := hold.content
          simp [hnone] at hfile

lemma Sound.recordNext (h : w.Sound j) (i : ℕ) (nonce : Option AeadNonce) (outcome : Replacement) :
    (w.step j (.recordNext i nonce outcome)).Sound j := by
  simp only [step]
  cases w.processes i with
  | stopped => exact h
  | ready => exact h
  | signing pending =>
    rcases h with ⟨hnone, hnil⟩ | ⟨coupons, hholds, hsublist⟩
    · have hfails : (j.recordNextCreditIou pending nonce outcome).on w.files =
          (.error .journalFailure, w.files) := by
        rw [FileCreditJournal.recordNextCreditIou, on_bind,
          FileCreditJournal.compareAndRecord_on_of_none hnone]
      simp only [hfails]
      exact .inl ⟨hnone, hnil⟩
    rcases hrecord : (j.recordNextCreditIou pending nonce outcome).on w.files with ⟨e | c, files⟩
    all_goals
      simp only [hrecord]
      obtain ⟨hcoupon, ⟨rfl, hfailed⟩ | hadded⟩ :=
        FileCreditJournal.recordNextCreditIou_on hholds hrecord
    · exact .inr ⟨coupons, hholds, hsublist⟩
    · exact .inr ⟨_, hadded, hsublist.trans (sublist_append_left _ _)⟩
    · exact absurd rfl (hfailed c)
    · obtain rfl := hcoupon c rfl
      exact .inr ⟨_, hadded, hsublist.append (List.Sublist.refl _)⟩

lemma Sound.step (h : w.Sound j) (a : Action) : (w.step j a).Sound j := by
  cases a with
  | create i marker nonce outcome => exact h.create i marker nonce outcome
  | recordNext i nonce outcome => exact h.recordNext i nonce outcome
  | stop i => exact h.congr rfl rfl
  | openAt i =>
    simp only [World.step]
    cases w.processes i with
    | stopped =>
      cases FileCreditJournal.openAt j.permit j.key w.files with
      | ok journal => exact h.congr rfl rfl
      | error e => exact h
    | ready => exact h
    | signing pending => exact h
  | prepareNext i borrower permit amountMicro payeeCommitment =>
    simp only [World.step]
    cases w.processes i with
    | ready =>
      cases j.prepareNextCreditIou borrower permit amountMicro payeeCommitment w.files with
      | ok pending => exact h.congr rfl rfl
      | error e => exact h
    | stopped => exact h
    | signing pending => exact h

lemma Sound.run (h : w.Sound j) (actions : List Action) : (w.run j actions).Sound j := by
  induction actions generalizing w with
  | nil => exact h
  | cons a actions ih => exact ih (h.step a)

end World

/-- Offline credit never exceeds its permit, in whatever order the processes that share a journal
get the lock, and however their writes end: the IOUs handed out differ in their numbers, they are
within the limit together, and all are in the outbox. A file that is there opens, and its IOUs are
numbered from zero on. -/
theorem returned_within_permit [KeyPrimitives] [AeadPrimitives] [LawfulAead]
    (permit : VerifiedCreditPermit) (key : AeadKey) (actions : List Action) :
    let j : FileCreditJournal := ⟨permit, key⟩
    let w := World.new.run j actions
    (w.returned.map fun c => c.terms.sequence).Nodup ∧
      (w.returned.map fun c => c.terms.amountMicro.toNat).sum ≤ permit.terms.limitMicro.toNat ∧
      (∀ c ∈ w.returned, ∃ coupons, j.outbox w.files = .ok coupons ∧ c ∈ coupons) ∧
      ∀ bytes, w.files .credit = some bytes →
        FileCreditJournal.openAt permit key w.files = .ok j ∧
          ∃ coupons, j.outbox w.files = .ok coupons ∧
            coupons.map (fun c => c.terms.sequence.toNat) = List.range coupons.length := by
  intro j w
  rcases (World.sound_new j).run actions with ⟨hnone, hnil⟩ | ⟨coupons, hholds, hsublist⟩
  · have hreturned : w.returned = [] := hnil
    have hfile : w.files .credit = none := hnone
    simp [hreturned, hfile]
  obtain ⟨usage, hread, -⟩ := hholds.exists_read
  have houtbox : j.outbox w.files = .ok coupons := bind_ok.mpr ⟨_, hread, rfl⟩
  refine ⟨?_, ?_, fun c hc => ⟨coupons, houtbox, hsublist.subset hc⟩, fun bytes _ =>
    ⟨bind_ok.mpr ⟨_, hread, rfl⟩, coupons, houtbox, hholds.recorded.sequences_eq⟩⟩
  · have hnumbers : (coupons.map fun c => c.terms.sequence.toNat).Nodup := by
      rw [← FileCreditJournal.sequences, hholds.recorded.sequences_eq]
      exact nodup_range
    have hall : (w.returned.map fun c => c.terms.sequence.toNat).Nodup :=
      (hsublist.map _).nodup hnumbers
    exact List.Nodup.of_map UInt64.toNat (by rwa [map_map])
  · exact ((hsublist.map _).sum_le_sum (by simp)).trans hholds.recorded.total_le

def sampleTerms : CreditPermitTerms :=
  ⟨Hash.zero, Vector.replicate 32 3, Vector.replicate 32 4, @ed25519Public .sample (sampleSeed 1),
    10, 10, 110⟩

/-- A permit for ten, of the first sample key. -/
def sampleVerified : VerifiedCreditPermit :=
  ⟨sampleTerms, @blake3 (@KeyPrimitives.toPrimitives .sample) sampleTerms.message, by decide⟩

/-- Two processes that sign the first IOU at the same time. -/
def sampleRace : List Action :=
  [.create 0 .replaced (some (Vector.replicate 12 0)) .replaced, .openAt 1,
    .prepareNext 0 (sampleKey 1) sampleVerified 6 (Vector.replicate 32 1),
    .prepareNext 1 (sampleKey 1) sampleVerified 7 (Vector.replicate 32 2),
    .recordNext 0 (some (Vector.replicate 12 1)) .replaced,
    .recordNext 1 (some (Vector.replicate 12 2)) .replaced]

/-- The one that records first gets its IOU. -/
theorem sample_returned :
    let key : AeadKey := ⟨.chaCha20Poly1305, Hash.zero⟩
    let w := @World.run .sample .sample ⟨sampleVerified, key⟩ .new sampleRace
    w.returned.map (fun c => c.terms.amountMicro) = [6] ∧
      ∀ c ∈ w.returned, ∃ coupons,
        @FileCreditJournal.outbox .sample .sample ⟨sampleVerified, key⟩ w.files = .ok coupons ∧
          c ∈ coupons :=
  ⟨by decide +kernel, (@returned_within_permit .sample .sample lawfulAead_sample sampleVerified
    ⟨.chaCha20Poly1305, Hash.zero⟩ sampleRace).2.2.1⟩

end CreditWallet

end Mininet

import Mininet.Crypto

/-!
# Offline credit permits

An issuer signs a permit for one device key, one allowance and one window of heights; the device
signs IOUs against it. Verification checks signatures and terms and nothing about how much of the
allowance is left.
-/

namespace Mininet

open Codec Fallible

inductive CreditSignatureError where
  | unsupportedSuite
  | invalidTerms
  | wrongNetwork
  | wrongBorrower
  | wrongPermit
  | badSignature
  | outsideWindow
  | allowanceExhausted
  | journalFailure
  | malformedEncoding
  deriving DecidableEq, Repr

/-! ### Permits -/

structure CreditPermitTerms where
  networkId : Hash
  policyRevision : Hash
  serial : Hash
  borrowerKey : Hash
  limitMicro : UInt64
  issuedHeight : UInt64
  validThroughHeight : UInt64
  deriving DecidableEq

def permitDomain : Bytes := utf8 "mini-settlement/offline-credit-permit/v1"

namespace CreditPermitTerms

def message (t : CreditPermitTerms) : Bytes :=
  permitDomain ++ (t.networkId.bytes ++ (t.policyRevision.bytes ++ (t.serial.bytes ++
    (t.borrowerKey.bytes ++ (toBeBytes t.limitMicro ++ (toBeBytes t.issuedHeight ++
    toBeBytes t.validThroughHeight))))))

/-- Check the terms. Terms that pass have a window, which the result carries. -/
def validate [Primitives] (t : CreditPermitTerms) (maxHeightSpan : UInt64) :
    Except CreditSignatureError (PLift (t.issuedHeight ≤ t.validThroughHeight)) := do
  failIf (t.limitMicro = 0 ∨ t.serial = Hash.zero ∨ t.policyRevision = Hash.zero) .invalidTerms
  if h : t.issuedHeight < t.validThroughHeight then
    failIf (maxHeightSpan < t.validThroughHeight - t.issuedHeight) .invalidTerms
    let _ ← (VerifyingKey.fromSuiteBytes .default t.borrowerKey.bytes).mapError fun _ =>
      .invalidTerms
    pure ⟨UInt64.le_of_lt h⟩
  else throw .invalidTerms

end CreditPermitTerms

structure SignedCreditPermit where
  terms : CreditPermitTerms
  signature : Signature
  deriving DecidableEq

/-- A permit whose signature and terms were checked. The fields are private in the source and only
`verifyCreditPermit` fills them in, so the window is one. -/
structure VerifiedCreditPermit where
  terms : CreditPermitTerms
  id : Hash
  window : terms.issuedHeight ≤ terms.validThroughHeight
  deriving DecidableEq

def verifyCreditPermit [Primitives] (permit : SignedCreditPermit) (authorizedIssuer : VerifyingKey)
    (networkId : Hash) (maxHeightSpan : UInt64) :
    Except CreditSignatureError VerifiedCreditPermit := do
  failIf (authorizedIssuer.suite ≠ .default ∨ permit.signature.suite ≠ .default) .unsupportedSuite
  failIf (permit.terms.networkId ≠ networkId) .wrongNetwork
  let window ← permit.terms.validate maxHeightSpan
  (authorizedIssuer.verify permit.terms.message permit.signature).mapError fun _ => .badSignature
  pure ⟨permit.terms, blake3 permit.terms.message, window.down⟩

/-! ### IOUs -/

structure CreditIouTerms where
  permitId : Hash
  sequence : UInt64
  payeeCommitment : Hash
  amountMicro : UInt64
  deriving DecidableEq

def iouDomain : Bytes := utf8 "mini-settlement/offline-credit-iou/v1"

namespace CreditIouTerms

def message (t : CreditIouTerms) : Bytes :=
  iouDomain ++ (t.permitId.bytes ++ (toBeBytes t.sequence ++ (t.payeeCommitment.bytes ++
    toBeBytes t.amountMicro)))

def validate (t : CreditIouTerms) (permit : VerifiedCreditPermit) :
    Except CreditSignatureError Unit := do
  failIf (t.permitId ≠ permit.id) .wrongPermit
  failIf (t.amountMicro = 0 ∨ permit.terms.limitMicro < t.amountMicro ∨
    t.payeeCommitment = Hash.zero) .invalidTerms

end CreditIouTerms

structure SignedCreditIou where
  terms : CreditIouTerms
  signature : Signature
  deriving DecidableEq

structure VerifiedCreditIou where
  terms : CreditIouTerms
  digest : Hash
  deriving DecidableEq

def verifyCreditIou [Primitives] (iou : SignedCreditIou) (permit : VerifiedCreditPermit)
    (observedHeight : UInt64) : Except CreditSignatureError VerifiedCreditIou := do
  failIf (iou.signature.suite ≠ .default) .unsupportedSuite
  iou.terms.validate permit
  failIf (observedHeight < permit.terms.issuedHeight ∨
    permit.terms.validThroughHeight < observedHeight) .outsideWindow
  let key ← (VerifyingKey.fromSuiteBytes .default permit.terms.borrowerKey.bytes).mapError fun _ =>
    .invalidTerms
  (key.verify iou.terms.message iou.signature).mapError fun _ => .badSignature
  pure ⟨iou.terms, blake3 iou.terms.message⟩

end Mininet

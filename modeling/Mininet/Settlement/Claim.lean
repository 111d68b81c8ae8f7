import Mininet.Crypto

/-!
# Payment claims

A claim is a payer's signed promise on one network. What the signature covers is also what the
digest covers; the signature itself is in neither.
-/

namespace Mininet

open Codec Fallible

inductive SettlementError where
  | badSignature
  | badKey
  | zeroAmount
  | claimTooLarge
  | malformedClaim
  deriving DecidableEq, Repr

structure PaymentClaim where
  networkId : Hash
  payer : Bytes
  payee : Bytes
  amountMicro : UInt64
  sequence : UInt64
  validUntilMs : UInt64
  lastKnownChain : Bytes
  signature : Signature
  deriving DecidableEq

def claimDomain : Bytes := utf8 "mini-settlement/payment-claim/v1"

namespace PaymentClaim

/-- The bytes signed: every field but the signature, behind its width or length. -/
def claimMessage (c : PaymentClaim) : Bytes :=
  claimDomain ++ (c.networkId.bytes ++ (framed UInt32 c.payer ++ (framed UInt32 c.payee ++
    (toBeBytes c.amountMicro ++ (toBeBytes c.sequence ++ (toBeBytes c.validUntilMs ++
    framed UInt32 c.lastKnownChain))))))

section Verify

variable [Primitives]

def verifyClaimSignature (c : PaymentClaim) : Except SettlementError Unit := do
  failIf (c.amountMicro = 0) .zeroAmount
  let payerKey ← (VerifyingKey.fromSuiteBytes .default c.payer).mapError fun _ => .badKey
  (payerKey.verify c.claimMessage c.signature).mapError fun _ => .badSignature

/-- The claim's identity: the digest of what was signed. -/
def claimDigest (c : PaymentClaim) : Hash := blake3 c.claimMessage

/-- A claim that verifies moves something, and its payer is a key of the default suite. -/
lemma of_verifyClaimSignature {c : PaymentClaim} (h : c.verifyClaimSignature = .ok ()) :
    c.amountMicro ≠ 0 ∧ ∃ key, VerifyingKey.fromSuiteBytes .default c.payer = .ok key := by
  obtain ⟨hamount, h⟩ := failIf_bind_ok.mp h
  obtain ⟨key, hkey, -⟩ := bind_ok.mp h
  exact ⟨hamount, key, mapError_ok.mp hkey⟩

end Verify

/-! ### What the message determines -/

/-- Every length-prefixed field is shorter than its prefix can say. -/
structure Fits (c : PaymentClaim) : Prop where
  payer : c.payer.length < 2 ^ 32
  payee : c.payee.length < 2 ^ 32
  lastKnownChain : c.lastKnownChain.length < 2 ^ 32

/-- Two claims that promise the same and may differ in the signature. -/
def SameTerms (c d : PaymentClaim) : Prop := { c with signature := d.signature } = d

instance (c d : PaymentClaim) : Decidable (c.SameTerms d) := inferInstanceAs (Decidable (_ = _))

variable {c d : PaymentClaim}

lemma SameTerms.claimMessage_eq (h : c.SameTerms d) : c.claimMessage = d.claimMessage := by
  rw [← h]
  rfl

lemma SameTerms.claimDigest_eq [Primitives] (h : c.SameTerms d) :
    c.claimDigest = d.claimDigest := congrArg blake3 h.claimMessage_eq

/-- The message determines every field but the signature. -/
lemma sameTerms_of_claimMessage_eq (hc : c.Fits) (hd : d.Fits) (h : c.claimMessage = d.claimMessage) :
    c.SameTerms d := by
  unfold claimMessage at h
  have h := List.append_cancel_left h
  obtain ⟨hnetwork, h⟩ := List.append_inj h (by simp)
  obtain ⟨hpayer, h⟩ := framed_append_inj hc.payer hd.payer h
  obtain ⟨hpayee, h⟩ := framed_append_inj hc.payee hd.payee h
  obtain ⟨hamount, h⟩ := List.append_inj h (by simp)
  obtain ⟨hsequence, h⟩ := List.append_inj h (by simp)
  obtain ⟨huntil, h⟩ := List.append_inj h (by simp)
  have hchain : c.lastKnownChain = d.lastKnownChain ∧ ([] : Bytes) = [] :=
    framed_append_inj (α := UInt32) hc.lastKnownChain hd.lastKnownChain (by simpa using h)
  cases c
  cases d
  cases Hash.bytes_injective hnetwork
  cases hpayer
  cases hpayee
  cases toBeBytes_injective hamount
  cases toBeBytes_injective hsequence
  cases toBeBytes_injective huntil
  cases hchain.1
  rfl

end PaymentClaim

end Mininet

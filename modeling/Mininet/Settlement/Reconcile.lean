import Mininet.Settlement.Claim

/-!
# Reconciliation

Where a claim stands is read off a view of the canonical ledger; nothing else can answer
`finalized`.
-/

namespace Mininet

open Fallible

/-- Why an exact claim was not executed. -/
inductive CanonicalRejection where
  | wrongNetwork
  | unsupportedPayee
  | staleSequence
  | insufficientFunds
  | unrecognizedAnchor
  deriving DecidableEq, Repr

inductive SettlementState where
  | signedLocal
  | acceptedLocal
  | pendingCanonical
  | finalized
  | rejectedConflict
  | rejectedCanonical (reason : CanonicalRejection)
  | expired
  deriving DecidableEq, Repr

/-- What reconciliation reads of a ledger. -/
structure CanonicalLedgerView where
  /-- The highest sequence finalized for a payer. -/
  finalizedSequence : Bytes → Option UInt64
  /-- The digest finalized for a payer at exactly one sequence. -/
  finalizedClaimDigest : Bytes → UInt64 → Option Hash
  rejectedClaim : Hash → Option CanonicalRejection

namespace PaymentClaim

variable [Primitives] {ledger : CanonicalLedgerView} {c : PaymentClaim}

/-- What the finalized sequences say about a claim that was not rejected. -/
def outcome (c : PaymentClaim) (ledger : CanonicalLedgerView) : SettlementState :=
  match ledger.finalizedSequence c.payer with
  | none => .pendingCanonical
  | some finalizedSequence =>
    if finalizedSequence < c.sequence then .pendingCanonical
    else if finalizedSequence = c.sequence then
      if ledger.finalizedClaimDigest c.payer c.sequence = some c.claimDigest then .finalized
      else .rejectedConflict
    else .rejectedConflict

/-- Resolve a claim against the canonical ledger. Expiry matters only while it is pending. -/
def reconcile (c : PaymentClaim) (ledger : CanonicalLedgerView) (nowMs : UInt64) :
    Except SettlementError SettlementState := do
  c.verifyClaimSignature
  return match ledger.rejectedClaim c.claimDigest with
    | some reason => .rejectedCanonical reason
    | none =>
      if c.outcome ledger = .pendingCanonical ∧ c.validUntilMs ≤ nowMs then .expired
      else c.outcome ledger

lemma outcome_eq_finalized :
    c.outcome ledger = .finalized ↔ ledger.finalizedSequence c.payer = some c.sequence ∧
      ledger.finalizedClaimDigest c.payer c.sequence = some c.claimDigest := by
  unfold outcome
  cases h : ledger.finalizedSequence c.payer with
  | none => simp
  | some n =>
    have hirrefl : ¬ n < n := UInt64.lt_irrefl n
    by_cases heq : n = c.sequence
    · subst heq
      simp [hirrefl]
    · simp only [heq, if_false, Option.some.injEq, false_and, iff_false]
      split <;> simp

/-- Time plays no part in finality. -/
lemma reconcile_eq_finalized {t : UInt64} :
    c.reconcile ledger t = .ok .finalized ↔ c.verifyClaimSignature = .ok () ∧
      ledger.rejectedClaim c.claimDigest = none ∧
      ledger.finalizedSequence c.payer = some c.sequence ∧
      ledger.finalizedClaimDigest c.payer c.sequence = some c.claimDigest := by
  rw [reconcile, bind_ok]
  simp only [pure_ok]
  rw [← outcome_eq_finalized]
  constructor
  · rintro ⟨⟨⟩, hok, h⟩
    split at h
    next => cases h
    next hnone =>
      split_ifs at h with hexpired
      exact ⟨hok, hnone, h⟩
  · rintro ⟨hok, hnone, h⟩
    exact ⟨(), hok, by simp [hnone, h]⟩

end PaymentClaim

end Mininet

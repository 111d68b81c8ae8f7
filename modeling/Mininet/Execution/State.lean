import Mininet.Economy.Ledger
import Mininet.Execution.Shielded
import Mininet.Settlement.Reconcile

/-!
# Ledger state

The deterministic result of executing block bodies: for each payer the last finalized sequence, the
claims that were rejected, the spent key images, the monetary and the shielded ledger, and account
balances. Value sits in one of three places: accounts, the unallocated remainder, and the shielded
pool.
-/

namespace Mininet

open Codec Fallible TreeMaps
open Std (ExtTreeMap)

def maxAccountBytes : ℕ := 4096

/-- The settlement network claims name by default. -/
def mininetNetworkId : Hash :=
  Hash.ofBytes (utf8 "mininet-public-settlement-v1" ++ [0, 0, 0, 0])

def CanonicalRejection.tag : CanonicalRejection → UInt8
  | .wrongNetwork       => 0
  | .unsupportedPayee   => 1
  | .staleSequence      => 2
  | .insufficientFunds  => 3
  | .unrecognizedAnchor => 4

def isSupportedAccount [Primitives] (account : Bytes) : Bool :=
  !account.isEmpty && decide (account.length ≤ maxAccountBytes) &&
    (VerifyingKey.fromSuiteBytes .default account).isOk

/-- What a claim moves. -/
def PaymentClaim.amount (c : PaymentClaim) : Amount := Fin.ofNat _ c.amountMicro.toNat

structure LedgerState where
  networkId : Hash
  finalized : ExtTreeMap Bytes (UInt64 × Hash) compare
  rejected : ExtTreeMap Hash CanonicalRejection compare
  nullifiers : ExtTreeMap Bytes Hash compare
  monetary : MonetaryLedger
  shielded : ShieldedLedger
  balances : ExtTreeMap Bytes Amount compare
  allocatedCirculating : Amount
  unallocatedCirculating : Amount
  deriving DecidableEq

namespace LedgerState

/-! ### Reading -/

def balance (s : LedgerState) (account : Bytes) : Amount := s.balances.getD account Amount.zero

def shieldedPool (s : LedgerState) : Amount := s.shielded.poolMicro

def view (s : LedgerState) : CanonicalLedgerView where
  finalizedSequence payer := s.finalized[payer]?.map Prod.fst
  finalizedClaimDigest payer sequence :=
    (s.finalized[payer]?.filter fun e => e.1 = sequence).map Prod.snd
  rejectedClaim digest := s.rejected[digest]?

def verifySupplyConservation (s : LedgerState) : Except ExecutionError Unit := do
  let transparent ← (s.allocatedCirculating.checkedAdd s.unallocatedCirculating).mapError
    fun _ => .amountOverflow
  let accounted ← (transparent.checkedAdd s.shieldedPool).mapError fun _ => .amountOverflow
  let circulating ← s.monetary.circulatingSupply.mapError .invalidMonetaryEpoch
  failIf (accounted ≠ circulating) .supplyConservationViolation

def verifyBalanceMapTotal (s : LedgerState) : Except ExecutionError Unit := do
  let recomputed ← s.balances.toList.foldlM (fun total e =>
    (total.checkedAdd e.2).mapError fun _ => ExecutionError.amountOverflow) Amount.zero
  failIf (recomputed ≠ s.allocatedCirculating) .supplyConservationViolation

/-! ### Genesis -/

def withNetworkAndGenesisSupply (networkId : Hash) (genesisCirculating : Amount) :
    LedgerState where
  networkId := networkId
  finalized := ∅
  rejected := ∅
  nullifiers := ∅
  monetary := .new genesisCirculating
  shielded := .empty
  balances := ∅
  allocatedCirculating := Amount.zero
  unallocatedCirculating := genesisCirculating

def withGenesisSupply (genesisCirculating : Amount) : LedgerState :=
  withNetworkAndGenesisSupply mininetNetworkId genesisCirculating

def new : LedgerState := withGenesisSupply Amount.zero

section

variable [Primitives]

/-- Allocate to one account, which must be new. -/
def allocate (acc : ExtTreeMap Bytes Amount compare × Amount) (allocation : Bytes × Amount) :
    Except ExecutionError (ExtTreeMap Bytes Amount compare × Amount) := do
  failIf (¬ isSupportedAccount allocation.1 ∨ allocation.2 = Amount.zero ∨
    allocation.1 ∈ acc.1) .invalidGenesisAllocation
  let allocated ← (acc.2.checkedAdd allocation.2).mapError fun _ => .amountOverflow
  return (acc.1.insert allocation.1 allocation.2, allocated)

def withNetworkAndGenesisBalances (networkId : Hash) (genesisCirculating : Amount)
    (allocations : List (Bytes × Amount)) : Except ExecutionError LedgerState := do
  let (balances, allocated) ← allocations.foldlM allocate (∅, Amount.zero)
  failIf (allocated ≠ genesisCirculating) .invalidGenesisAllocation
  return { withNetworkAndGenesisSupply networkId genesisCirculating with
    balances := balances
    allocatedCirculating := allocated
    unallocatedCirculating := Amount.zero }

def withGenesisBalances (genesisCirculating : Amount) (allocations : List (Bytes × Amount)) :
    Except ExecutionError LedgerState :=
  withNetworkAndGenesisBalances mininetNetworkId genesisCirculating allocations

end

def withShieldedGenesis (networkId : Hash) (allocations : List ShieldedGenesisAllocation)
    (verifier : ClaimVerifier) : Except ExecutionError LedgerState := do
  let shielded ← ShieldedLedger.fromGenesis networkId allocations verifier
  let state := { withNetworkAndGenesisSupply networkId shielded.poolMicro with
    unallocatedCirculating := Amount.zero
    shielded := shielded }
  state.verifySupplyConservation
  return state

/-! ### Claims -/

def reject (s : LedgerState) (digest : Hash) (reason : CanonicalRejection) : LedgerState :=
  { s with rejected := s.rejected.insert digest reason }

/-- Whether a sequence is past the last one finalized for the payer. -/
def wins (s : LedgerState) (c : PaymentClaim) : Bool :=
  match s.view.finalizedSequence c.payer with
  | none                  => true
  | some existingSequence => existingSequence < c.sequence

/-- Move a claim's amount between two accounts; an account that is emptied is removed. -/
def transfer (s : LedgerState) (c : PaymentClaim) : Except ExecutionError LedgerState :=
  if c.payer = c.payee then .ok s
  else do
    let debited ← ((s.balance c.payer).checkedSub c.amount).mapError
      fun _ => .supplyConservationViolation
    let credited ← ((s.balance c.payee).checkedAdd c.amount).mapError fun _ => .amountOverflow
    let balances := if debited = Amount.zero then s.balances.erase c.payer
      else s.balances.insert c.payer debited
    return { s with balances := balances.insert c.payee credited }

/-- Record the claim as the payer's last; an earlier rejection of it is forgotten. -/
def finalize [Primitives] (s : LedgerState) (c : PaymentClaim) : LedgerState :=
  { s with
    rejected := s.rejected.erase c.claimDigest
    finalized := s.finalized.insert c.payer (c.sequence, c.claimDigest) }

/-- Execute one claim. A claim without a valid signature leaves no trace; any other that cannot be
executed is recorded as rejected. -/
def applyOneClaim [Primitives] (s : LedgerState) (c : PaymentClaim) :
    Except ExecutionError LedgerState :=
  match c.verifyClaimSignature with
  | .error _ => .ok s
  | .ok _ =>
    if c.networkId ≠ s.networkId then .ok (s.reject c.claimDigest .wrongNetwork)
    else if ¬ isSupportedAccount c.payee then .ok (s.reject c.claimDigest .unsupportedPayee)
    else if ¬ s.wins c then .ok (s.reject c.claimDigest .staleSequence)
    else if s.balance c.payer < c.amount then .ok (s.reject c.claimDigest .insufficientFunds)
    else do
      let paid ← s.transfer c
      return paid.finalize c

/-! ### Shielded spends -/

/-- The digests of the records, in the order of their first appearance. -/
def claimOrder (records : List NullifierRecord) : List Hash :=
  records.foldl (fun order r => if r.claimDigest ∈ order then order else order ++ [r.claimDigest]) []

/-- Whether a claim may take every key image of its group: each is free or already its own. -/
def takeable (s : LedgerState) (digest : Hash) (group : List NullifierRecord) : Bool :=
  group.all fun r =>
    match s.nullifiers[r.keyImage]? with
    | none      => true
    | some held => held = digest

/-- Apply the group of one claim, all of it or, when it is not takeable, none. -/
def applyGroup (verifier : ClaimVerifier) (groups : ExtTreeMap Hash (List NullifierRecord) compare)
    (s : LedgerState) (digest : Hash) : Except ExecutionError LedgerState :=
  match groups[digest]? with
  | none => .ok s
  | some group => do
    let effects ← okOr (verifier.verifyClaim s.networkId digest group) .invalidShieldedClaim
    if s.takeable digest group then
      let (shielded, fee) ← s.shielded.apply digest effects
      let unallocated ← (s.unallocatedCirculating.checkedAdd (Fin.ofNat _ fee.toNat)).mapError
        fun _ => .amountOverflow
      return { s with
        shielded := shielded
        unallocatedCirculating := unallocated
        nullifiers := insertAll s.nullifiers (group.map fun r => (r.keyImage, digest)) }
    else return s

def applyNullifiers (s : LedgerState) (records : List NullifierRecord)
    (claimVerifier : Option ClaimVerifier) : Except ExecutionError LedgerState :=
  if records = [] then .ok s
  else do
    let verifier ← okOr claimVerifier .missingClaimVerifier
    failIf (∃ r ∈ records, ¬ r.isWellFormed) .invalidShieldedClaim
    (claimOrder records).foldlM (applyGroup verifier (recordGroups records)) s

/-! ### Blocks -/

/-- Apply a block's monetary epoch, if it has one; what starts to circulate is unallocated. -/
def applyMonetaryEpoch (s : LedgerState) :
    Option ScalableEpochPlan → Except ExecutionError LedgerState
  | none => .ok s
  | some epoch => do
    let _ ← epoch.toWireBytes.mapError .invalidMonetaryEpoch
    let before ← s.monetary.circulatingSupply.mapError .invalidMonetaryEpoch
    let monetary ← (s.monetary.applyEpoch epoch .d0074).mapError .invalidMonetaryEpoch
    let after ← monetary.circulatingSupply.mapError .invalidMonetaryEpoch
    let newlyCirculating ← (after.checkedSub before).mapError fun _ => .supplyConservationViolation
    let unallocated ← (s.unallocatedCirculating.checkedAdd newlyCirculating).mapError
      fun _ => .amountOverflow
    return { s with monetary := monetary, unallocatedCirculating := unallocated }

variable [Primitives]

/-- Apply a body. Claims come first, then shielded spends, then the epoch. -/
def applyBlockWithVerifier (prev : LedgerState) (body : SettlementBlockBody)
    (claimVerifier : Option ClaimVerifier) : Except ExecutionError LedgerState := do
  failIf (maxClaimsPerBlock < body.claims.length) .tooManyClaims
  failIf (maxMonetaryEpochsPerBlock < body.monetaryEpochs.length) .tooManyMonetaryEpochs
  failIf (maxNullifiersPerBlock < body.nullifiers.length) .tooManyNullifiers
  failIf (body.nullifiers ≠ [] ∧ claimVerifier.isNone) .missingClaimVerifier
  let paid ← body.claims.foldlM applyOneClaim prev
  let spent ← paid.applyNullifiers body.nullifiers claimVerifier
  let next ← spent.applyMonetaryEpoch body.monetaryEpochs.head?
  next.verifySupplyConservation
  return next

/-- Apply a body without shielded spends. -/
def applyBlock (prev : LedgerState) (body : SettlementBlockBody) :
    Except ExecutionError LedgerState :=
  prev.applyBlockWithVerifier body none

/-! ### Commitment -/

/-- What the state root commits to: the whole state. -/
def canonicalBytes (s : LedgerState) : Bytes :=
  utf8 "mini-execution/ledger-state/v5" ++ s.networkId.bytes ++
    countBytes UInt64 s.finalized.size ++
    s.finalized.toList.flatMap (fun e => framed UInt32 e.1 ++ toBeBytes e.2.1 ++ e.2.2.bytes) ++
    countBytes UInt64 s.rejected.size ++
    s.rejected.toList.flatMap (fun e => e.1.bytes ++ [e.2.tag]) ++
    countBytes UInt64 s.nullifiers.size ++
    s.nullifiers.toList.flatMap (fun e => framed UInt32 e.1 ++ e.2.bytes) ++
    s.shielded.toBytes ++ s.monetary.commitment ++
    countBytes UInt64 s.balances.size ++
    s.balances.toList.flatMap (fun e => framed UInt32 e.1 ++ toBeBytes e.2) ++
    toBeBytes s.allocatedCirculating ++ toBeBytes s.unallocatedCirculating

def commitment (s : LedgerState) : Hash := blake3 s.canonicalBytes

end LedgerState

end Mininet

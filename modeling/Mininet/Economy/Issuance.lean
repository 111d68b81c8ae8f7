import Mininet.Crypto

/-!
# Issuance plans

Amounts are 128-bit and every sum is checked. An epoch's plan is derived from the opening supply
and a policy in parts per million of it per year: an equal share for every human of a finalized
snapshot, and service and treasury grants up to their caps.
-/

namespace Mininet

open Codec Fallible List

inductive EconomyError where
  | overflow
  | underflow
  | duplicateBeneficiary
  | invalidDuration
  | invalidPolicy
  | channelExceeded
  | totalExceeded
  | invalidSnapshot
  | unexpectedEpoch
  | openingSupplyMismatch
  | invalidEpochPlan
  | malformedEncoding
  | limitExceeded
  | emptyEligibleSet
  deriving DecidableEq, Repr

/-! ### Amounts -/

/-- `checked_mul` on `u128`. -/
def checkedMul (a b : U128) : Option U128 :=
  if h : a.val * b.val < 2 ^ 128 then some ⟨a.val * b.val, h⟩ else none

/-- `checked_add` on `u128`. -/
def checkedAdd (a b : U128) : Option U128 :=
  if h : a.val + b.val < 2 ^ 128 then some ⟨a.val + b.val, h⟩ else none

lemma checkedMul_some {a b c : U128} : checkedMul a b = some c ↔ a.val * b.val = c.val := by
  unfold checkedMul
  split_ifs with h
  · simp [Fin.ext_iff]
  · have hc := c.isLt
    simp only [false_iff]
    omega

lemma checkedAdd_some {a b c : U128} : checkedAdd a b = some c ↔ a.val + b.val = c.val := by
  unfold checkedAdd
  split_ifs with h
  · simp [Fin.ext_iff]
  · have hc := c.isLt
    simp only [false_iff]
    omega

/-- Atomic units. -/
abbrev Amount := U128

namespace Amount

def zero : Amount := 0

def checkedAdd (a b : Amount) : Except EconomyError Amount :=
  if h : a.val + b.val < 2 ^ 128 then .ok ⟨a.val + b.val, h⟩ else .error .overflow

def checkedSub (a b : Amount) : Except EconomyError Amount :=
  if b.val ≤ a.val then .ok ⟨a.val - b.val, by omega⟩ else .error .underflow

variable {a b : Amount} {c : Amount}

lemma checkedAdd_ok : a.checkedAdd b = .ok c ↔ a.val + b.val = c.val := by
  unfold checkedAdd
  split_ifs with h
  · simp [Fin.ext_iff]
  · have hc := c.isLt
    simp only [false_iff]
    omega

lemma lt_of_checkedSub_error {e : EconomyError} (h : a.checkedSub b = .error e) :
    a.val < b.val := by
  unfold checkedSub at h
  split_ifs at h with hle
  omega

lemma checkedSub_ok : a.checkedSub b = .ok c ↔ a.val = b.val + c.val := by
  unfold checkedSub
  split_ifs with h
  · simp only [Except.ok.injEq, Fin.ext_iff]
    omega
  · simp only [false_iff]
    omega

end Amount

/-! ### Policy -/

def million : ℕ := 1000000

def yearMs : UInt64 := 365 * 24 * 60 * 60 * 1000

/-- The three channels of issuance. -/
inductive Channel where
  | humanShare
  | service
  | treasuryContribution
  deriving DecidableEq, Repr

def Channel.tag : Channel → UInt8
  | .humanShare           => 0
  | .service              => 1
  | .treasuryContribution => 2

structure Allocation where
  beneficiary : String
  amount : Amount

structure VestingGrant where
  beneficiary : String
  channel : Channel
  amount : Amount
  vestingMs : UInt64
  deriving DecidableEq

structure IssuancePolicy where
  totalCeilingPpm : UInt32
  humanFloorPpm : UInt32
  serviceCeilingPpm : UInt32
  treasuryCeilingPpm : UInt32
  humanVestingMs : UInt64
  treasuryVestingMs : UInt64

namespace IssuancePolicy

def d0074 : IssuancePolicy where
  totalCeilingPpm := 30000
  humanFloorPpm := 20000
  serviceCeilingPpm := 7500
  treasuryCeilingPpm := 2500
  humanVestingMs := yearMs
  treasuryVestingMs := 90 * 24 * 60 * 60 * 1000

def validate (p : IssuancePolicy) : Except EconomyError Unit :=
  let channels := p.humanFloorPpm.toNat + p.serviceCeilingPpm.toNat + p.treasuryCeilingPpm.toNat
  if 2 ^ 32 ≤ channels then .error .invalidPolicy
  else if p.totalCeilingPpm.toNat < channels ∨ million < p.totalCeilingPpm.toNat ∨
      p.humanVestingMs = 0 ∨ p.treasuryVestingMs = 0 then .error .invalidPolicy
  else .ok ()

end IssuancePolicy

/-! ### Plans -/

/-- A finalized personhood set, by its commitment. -/
structure HumanSnapshot where
  root : Hash
  eligibleCount : UInt64
  deriving DecidableEq

structure HumanSharePlan where
  epoch : UInt64
  snapshot : HumanSnapshot
  cap : Amount
  perHuman : Amount
  issued : Amount
  unissuedRemainder : Amount
  vestingMs : UInt64
  deriving DecidableEq

structure ScalableEpochRequest where
  epoch : UInt64
  durationMs : UInt64
  openingCirculating : Amount
  humanSnapshot : HumanSnapshot
  service : List Allocation
  treasury : List Allocation

structure ScalableEpochPlan where
  epoch : UInt64
  durationMs : UInt64
  openingCirculating : Amount
  human : HumanSharePlan
  serviceCap : Amount
  treasuryCap : Amount
  totalCap : Amount
  serviceIssued : Amount
  treasuryIssued : Amount
  totalIssued : Amount
  optionalGrants : List VestingGrant
  deriving DecidableEq

/-- Euclid's loop; `Nat.gcd` is the same loop with its arguments the other way round. -/
def gcd (left right : ℕ) : ℕ := Nat.gcd right left

/-- Divide a factor and the denominator by their common part. -/
def reduceFactor (factor denominator : ℕ) : ℕ × ℕ :=
  let divisor := gcd factor denominator
  (factor / divisor, denominator / divisor)

/-- `supply * ppm * durationMs / (million * yearMs)`, with the common parts of each factor and the
denominator divided out before multiplying. -/
def prorated (supply : Amount) (ppm : UInt32) (durationMs : UInt64) : Except EconomyError Amount :=
  let (f₀, d₀) := reduceFactor supply.val (million * yearMs.toNat)
  let (f₁, d₁) := reduceFactor ppm.toNat d₀
  let (f₂, d₂) := reduceFactor durationMs.toNat d₁
  if h : f₀ * f₁ < 2 ^ 128 ∧ f₀ * f₁ * f₂ < 2 ^ 128 then
    .ok ⟨f₀ * f₁ * f₂ / d₂, (Nat.div_le_self _ _).trans_lt h.2⟩
  else .error .overflow

def planHumanShare (epoch durationMs : UInt64) (openingCirculating : Amount)
    (snapshot : HumanSnapshot) (policy : IssuancePolicy) : Except EconomyError HumanSharePlan := do
  policy.validate
  failIf (durationMs = 0 ∨ yearMs < durationMs) .invalidDuration
  failIf (snapshot.eligibleCount = 0 ∨ snapshot.root = Hash.zero) .invalidSnapshot
  let cap ← prorated openingCirculating policy.humanFloorPpm durationMs
  let perHuman : Amount := ⟨cap.val / snapshot.eligibleCount.toNat,
    (Nat.div_le_self _ _).trans_lt cap.isLt⟩
  let issued ← okOr (checkedMul perHuman (Fin.ofNat _ snapshot.eligibleCount.toNat)) .overflow
  let unissuedRemainder ← cap.checkedSub issued
  return {
    epoch := epoch
    snapshot := snapshot
    cap := cap
    perHuman := perHuman
    issued := issued
    unissuedRemainder := unissuedRemainder
    vestingMs := policy.humanVestingMs }

/-- Sum allocations, refusing an empty or repeated beneficiary. -/
def sumAllocations : List Allocation → Finset String → Amount → Except EconomyError Amount
  | [], _, total                      => .ok total
  | allocation :: rest, seen, total => do
      failIf (allocation.beneficiary = "" ∨ allocation.beneficiary ∈ seen) .duplicateBeneficiary
      let total ← total.checkedAdd allocation.amount
      sumAllocations rest (insert allocation.beneficiary seen) total

def validateAllocations (allocations : List Allocation) (cap : Amount) :
    Except EconomyError Amount := do
  let total ← sumAllocations allocations ∅ Amount.zero
  failIf (cap < total) .channelExceeded
  return total

/-- The grants of a request, service first. -/
def ScalableEpochRequest.grants (request : ScalableEpochRequest) (policy : IssuancePolicy) :
    List VestingGrant :=
  (request.service.map fun a => ⟨a.beneficiary, .service, a.amount, 0⟩) ++
    request.treasury.map fun a =>
      ⟨a.beneficiary, .treasuryContribution, a.amount, policy.treasuryVestingMs⟩

def planScalableEpoch (request : ScalableEpochRequest) (policy : IssuancePolicy) :
    Except EconomyError ScalableEpochPlan := do
  policy.validate
  let human ← planHumanShare request.epoch request.durationMs request.openingCirculating
    request.humanSnapshot policy
  let serviceCap ← prorated request.openingCirculating policy.serviceCeilingPpm request.durationMs
  let treasuryCap ← prorated request.openingCirculating policy.treasuryCeilingPpm request.durationMs
  let totalCap ← prorated request.openingCirculating policy.totalCeilingPpm request.durationMs
  let serviceIssued ← validateAllocations request.service serviceCap
  let treasuryIssued ← validateAllocations request.treasury treasuryCap
  let issued ← human.issued.checkedAdd serviceIssued
  let totalIssued ← issued.checkedAdd treasuryIssued
  failIf (totalCap < totalIssued) .totalExceeded
  return {
    epoch := request.epoch
    durationMs := request.durationMs
    openingCirculating := request.openingCirculating
    human := human
    serviceCap := serviceCap
    treasuryCap := treasuryCap
    totalCap := totalCap
    serviceIssued := serviceIssued
    treasuryIssued := treasuryIssued
    totalIssued := totalIssued
    optionalGrants := request.grants policy }

/-! ### What a plan says -/

variable {allocations : List Allocation} {policy : IssuancePolicy}

lemma sumAllocations_ok {seen : Finset String}
    {total result : Amount} (h : sumAllocations allocations seen total = .ok result) :
    result.val = total.val + (allocations.map fun a => a.amount.val).sum ∧
      ∀ a ∈ allocations, a.beneficiary ≠ "" := by
  induction allocations generalizing seen total with
  | nil =>
    cases h
    simp
  | cons a rest ih =>
    unfold sumAllocations at h
    obtain ⟨hname, h⟩ := failIf_bind_ok.mp h
    obtain ⟨total', hadd, hrest⟩ := bind_ok.mp h
    obtain ⟨hsum, hnames⟩ := ih hrest
    rw [Amount.checkedAdd_ok] at hadd
    refine ⟨by simp only [map_cons, sum_cons]; omega, ?_⟩
    intro b hb
    rcases mem_cons.mp hb with rfl | hb
    · exact (not_or.mp hname).1
    · exact hnames b hb

lemma validateAllocations_ok {cap result : Amount}
    (h : validateAllocations allocations cap = .ok result) :
    result.val = (allocations.map fun a => a.amount.val).sum ∧
      ∀ a ∈ allocations, a.beneficiary ≠ "" := by
  unfold validateAllocations at h
  obtain ⟨total, hsum, h⟩ := bind_ok.mp h
  obtain ⟨hval, hnames⟩ := sumAllocations_ok hsum
  obtain ⟨-, h⟩ := failIf_bind_ok.mp h
  cases h
  exact ⟨by simpa [Amount.zero] using hval, hnames⟩

/-- What is true of every human share that was planned. -/
lemma planHumanShare_ok {epoch durationMs : UInt64} {opening : Amount}
    {snapshot : HumanSnapshot} {plan : HumanSharePlan}
    (h : planHumanShare epoch durationMs opening snapshot policy = .ok plan) :
    plan.snapshot = snapshot ∧ snapshot.eligibleCount ≠ 0 ∧ snapshot.root ≠ Hash.zero ∧
      plan.vestingMs = policy.humanVestingMs := by
  unfold planHumanShare at h
  simp only [↓failIf_bind_ok, bind_ok] at h
  obtain ⟨-, -, -, hsnap, cap, -, issued, -, remainder, -, h⟩ := h
  cases h
  exact ⟨rfl, (not_or.mp hsnap).1, (not_or.mp hsnap).2, rfl⟩

/-- What is true of every epoch that was planned: it issues what its human share and grants add up
to, and every grant has a named beneficiary in one of the two optional channels. -/
lemma planScalableEpoch_ok {request : ScalableEpochRequest}
    {plan : ScalableEpochPlan} (h : planScalableEpoch request policy = .ok plan) :
    plan.human.snapshot = request.humanSnapshot ∧ request.humanSnapshot.eligibleCount ≠ 0 ∧
      request.humanSnapshot.root ≠ Hash.zero ∧
      plan.totalIssued.val =
        plan.human.issued.val + (plan.optionalGrants.map fun g => g.amount.val).sum ∧
      ∀ g ∈ plan.optionalGrants, g.beneficiary ≠ "" := by
  simp only [planScalableEpoch, ↓failIf_bind_ok, bind_ok] at h
  obtain ⟨-, -, human, hhuman, serviceCap, -, treasuryCap, -, totalCap, -, serviceIssued, hservice,
    treasuryIssued, htreasury, issued, hissued, totalIssued, htotal, -, h⟩ := h
  obtain ⟨hsnapshot, hcount, hroot, -⟩ := planHumanShare_ok hhuman
  obtain ⟨hserviceSum, hserviceNames⟩ := validateAllocations_ok hservice
  obtain ⟨htreasurySum, htreasuryNames⟩ := validateAllocations_ok htreasury
  rw [Amount.checkedAdd_ok] at hissued htotal
  cases h
  refine ⟨hsnapshot, hcount, hroot, ?_, fun g hg => ?_⟩
  · simp only [ScalableEpochRequest.grants, map_append, map_map, Function.comp_def, sum_append]
    omega
  · rcases mem_append.mp hg with hg | hg
    · obtain ⟨a, ha, rfl⟩ := mem_map.mp hg
      exact hserviceNames a ha
    · obtain ⟨a, ha, rfl⟩ := mem_map.mp hg
      exact htreasuryNames a ha

end Mininet

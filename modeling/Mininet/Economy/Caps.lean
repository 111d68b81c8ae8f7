import Mininet.Economy.Issuance

/-!
# What the caps of an epoch allow

Each cap is the floor of an exact quotient, although it is computed with the common factors divided
out. The channels of a policy add up to at most its total, so their floors do, and neither way of
planning an epoch ever exceeds the total cap.
-/

namespace Mininet

open Codec Fallible

/-! ### Planning with a list of humans -/

structure EpochRequest where
  epoch : UInt64
  durationMs : UInt64
  openingCirculating : Amount
  eligibleHumans : List String
  service : List Allocation
  treasury : List Allocation

structure EpochPlan where
  epoch : UInt64
  durationMs : UInt64
  openingCirculating : Amount
  humanCap : Amount
  serviceCap : Amount
  treasuryCap : Amount
  totalCap : Amount
  humanIssued : Amount
  serviceIssued : Amount
  treasuryIssued : Amount
  totalIssued : Amount
  grants : List VestingGrant

/-- The humans in order, if there are any and none is repeated or empty. -/
def canonicalHumans (humans : List String) : Except EconomyError (List String) := do
  failIf (humans = []) .emptyEligibleSet
  failIf (humans.toFinset.card ≠ humans.length ∨ "" ∈ humans) .duplicateBeneficiary
  return humans.toFinset.sort

def planEpoch (request : EpochRequest) (policy : IssuancePolicy) :
    Except EconomyError EpochPlan := do
  policy.validate
  failIf (request.durationMs = 0 ∨ yearMs < request.durationMs) .invalidDuration
  let humans ← canonicalHumans request.eligibleHumans
  let humanCap ← prorated request.openingCirculating policy.humanFloorPpm request.durationMs
  let serviceCap ← prorated request.openingCirculating policy.serviceCeilingPpm request.durationMs
  let treasuryCap ← prorated request.openingCirculating policy.treasuryCeilingPpm request.durationMs
  let totalCap ← prorated request.openingCirculating policy.totalCeilingPpm request.durationMs
  let equalHuman : Amount := ⟨humanCap.val / humans.length,
    (Nat.div_le_self _ _).trans_lt humanCap.isLt⟩
  let humanIssued ← okOr (checkedMul equalHuman (Fin.ofNat _ humans.length)) .overflow
  let serviceIssued ← validateAllocations request.service serviceCap
  let treasuryIssued ← validateAllocations request.treasury treasuryCap
  let issued ← Amount.checkedAdd humanIssued serviceIssued
  let totalIssued ← Amount.checkedAdd issued treasuryIssued
  failIf (totalCap < totalIssued) .totalExceeded
  return {
    epoch := request.epoch
    durationMs := request.durationMs
    openingCirculating := request.openingCirculating
    humanCap := humanCap
    serviceCap := serviceCap
    treasuryCap := treasuryCap
    totalCap := totalCap
    humanIssued := humanIssued
    serviceIssued := serviceIssued
    treasuryIssued := treasuryIssued
    totalIssued := totalIssued
    grants := (humans.map fun name => ⟨name, .humanShare, equalHuman, policy.humanVestingMs⟩) ++
      (request.service.map fun a => ⟨a.beneficiary, .service, a.amount, 0⟩) ++
      request.treasury.map fun a =>
        ⟨a.beneficiary, .treasuryContribution, a.amount, policy.treasuryVestingMs⟩ }

/-! ### Caps -/

variable {cap : Amount} {durationMs : UInt64} {policy : IssuancePolicy}
  {service treasury : List Allocation} {request : ScalableEpochRequest}
  {allocations : List Allocation} {opening : Amount} {supply : Amount} {ppm : UInt32} {count : ℕ}

lemma reduceFactor_spec (factor : ℕ) {denominator : ℕ} (h : 0 < denominator) :
    ∃ g > 0, factor = (reduceFactor factor denominator).1 * g ∧
      denominator = (reduceFactor factor denominator).2 * g :=
  ⟨gcd factor denominator, Nat.gcd_pos_of_pos_left _ h,
    (Nat.div_mul_cancel (Nat.gcd_dvd_right _ _)).symm,
    (Nat.div_mul_cancel (Nat.gcd_dvd_left _ _)).symm⟩

/-- The part of a supply that a duration is worth, in units. -/
def proportion (supply : Amount) (ppm : UInt32) (durationMs : UInt64) : ℕ :=
  supply.val * ppm.toNat * durationMs.toNat / (million * yearMs.toNat)

/-- Dividing out the common parts keeps the quotient. -/
lemma prorated_eq_proportion (h : prorated supply ppm durationMs = .ok cap) :
    cap.val = proportion supply ppm durationMs := by
  have hpos : 0 < million * yearMs.toNat := by decide
  unfold prorated at h
  obtain ⟨g₀, hg₀, hf₀, hd₀⟩ := reduceFactor_spec supply.val hpos
  generalize reduceFactor supply.val (million * yearMs.toNat) = r₀ at h hf₀ hd₀
  have hpos₀ : 0 < r₀.2 := Nat.pos_of_mul_pos_right (hd₀ ▸ hpos)
  obtain ⟨g₁, hg₁, hf₁, hd₁⟩ := reduceFactor_spec ppm.toNat hpos₀
  dsimp only at h
  generalize reduceFactor ppm.toNat r₀.2 = r₁ at h hf₁ hd₁
  obtain ⟨g₂, hg₂, hf₂, hd₂⟩ := reduceFactor_spec durationMs.toNat
    (Nat.pos_of_mul_pos_right (hd₁ ▸ hpos₀))
  generalize reduceFactor durationMs.toNat r₁.2 = r₂ at h hf₂ hd₂
  split_ifs at h
  obtain rfl := Except.ok.inj h
  have hnum : supply.val * ppm.toNat * durationMs.toNat = r₀.1 * r₁.1 * r₂.1 * (g₀ * g₁ * g₂) := by
    rw [hf₀, hf₁, hf₂]
    ring
  have hden : million * yearMs.toNat = r₂.2 * (g₀ * g₁ * g₂) := by
    rw [hd₀, hd₁, hd₂]
    ring
  rw [proportion, hnum, hden, Nat.mul_div_mul_right _ _ (by positivity)]

/-! ### Channels -/

/-- The caps of an epoch and what it issues. -/
structure Channels where
  humanCap : Amount
  serviceCap : Amount
  treasuryCap : Amount
  totalCap : Amount
  humanIssued : Amount
  serviceIssued : Amount
  treasuryIssued : Amount
  totalIssued : Amount

def ScalableEpochPlan.channels (plan : ScalableEpochPlan) : Channels where
  humanCap := plan.human.cap
  serviceCap := plan.serviceCap
  treasuryCap := plan.treasuryCap
  totalCap := plan.totalCap
  humanIssued := plan.human.issued
  serviceIssued := plan.serviceIssued
  treasuryIssued := plan.treasuryIssued
  totalIssued := plan.totalIssued

def EpochPlan.channels (plan : EpochPlan) : Channels where
  humanCap := plan.humanCap
  serviceCap := plan.serviceCap
  treasuryCap := plan.treasuryCap
  totalCap := plan.totalCap
  humanIssued := plan.humanIssued
  serviceIssued := plan.serviceIssued
  treasuryIssued := plan.treasuryIssued
  totalIssued := plan.totalIssued

/-- No channel issues more than its cap. -/
def Channels.Within (c : Channels) : Prop :=
  c.humanIssued ≤ c.humanCap ∧ c.serviceIssued ≤ c.serviceCap ∧ c.treasuryIssued ≤ c.treasuryCap

/-- The whole units of a cap that `count` humans can share equally. -/
def equalPart (cap : Amount) (count : ℕ) : Amount :=
  ⟨cap.val / count * count, (Nat.div_mul_le_self _ _).trans_lt cap.isLt⟩

/-- The arithmetic that both ways of planning an epoch share. -/
def planChannels (durationMs : UInt64) (opening : Amount) (count : ℕ)
    (service treasury : List Allocation) (policy : IssuancePolicy) :
    Except EconomyError Channels := do
  let humanCap ← prorated opening policy.humanFloorPpm durationMs
  let serviceCap ← prorated opening policy.serviceCeilingPpm durationMs
  let treasuryCap ← prorated opening policy.treasuryCeilingPpm durationMs
  let totalCap ← prorated opening policy.totalCeilingPpm durationMs
  let serviceIssued ← validateAllocations service serviceCap
  let treasuryIssued ← validateAllocations treasury treasuryCap
  let issued ← Amount.checkedAdd (equalPart humanCap count) serviceIssued
  let totalIssued ← Amount.checkedAdd issued treasuryIssued
  failIf (totalCap < totalIssued) .totalExceeded
  return ⟨humanCap, serviceCap, treasuryCap, totalCap, equalPart humanCap count, serviceIssued,
    treasuryIssued, totalIssued⟩

lemma le_of_validateAllocations {total : Amount}
    (h : validateAllocations allocations cap = .ok total) : total ≤ cap := by
  obtain ⟨sum, -, h⟩ := bind_ok.mp h
  obtain ⟨hle, h⟩ := failIf_bind_ok.mp h
  cases h
  exact not_lt.mp hle

/-- Equal shares never overflow, also where the count does not fit a word. -/
lemma checkedMul_equalPart (cap : Amount) (count : ℕ) (h : cap.val / count < 2 ^ 128) :
    checkedMul ⟨cap.val / count, h⟩ (Fin.ofNat _ count) = some (equalPart cap count) := by
  rw [checkedMul_some]
  change cap.val / count * (count % 2 ^ 128) = cap.val / count * count
  rcases lt_or_ge count (2 ^ 128) with hlt | hge
  · rw [Nat.mod_eq_of_lt hlt]
  · rw [Nat.div_eq_of_lt (cap.isLt.trans_le hge), zero_mul, zero_mul]

lemma exists_checkedSub_equalPart (cap : Amount) (count : ℕ) :
    ∃ rest, cap.checkedSub (equalPart cap count) = .ok rest := by
  refine ⟨⟨cap.val - cap.val / count * count, by omega⟩, Amount.checkedSub_ok.mpr ?_⟩
  exact (Nat.add_sub_of_le (Nat.div_mul_le_self _ _)).symm

lemma map_channels_planEpoch (request : EpochRequest) (policy : IssuancePolicy) :
    EpochPlan.channels <$> planEpoch request policy =
      (policy.validate >>= fun _ =>
        failIf (request.durationMs = 0 ∨ yearMs < request.durationMs) .invalidDuration >>= fun _ =>
        canonicalHumans request.eligibleHumans >>= fun humans =>
        planChannels request.durationMs request.openingCirculating humans.length request.service
          request.treasury policy) := by
  simp only [planEpoch, planChannels, checkedMul_equalPart, okOr, map_bind, map_pure]
  rfl

lemma map_channels_planScalableEpoch (request : ScalableEpochRequest) (policy : IssuancePolicy) :
    ScalableEpochPlan.channels <$> planScalableEpoch request policy =
      (policy.validate >>= fun _ =>
        failIf (request.durationMs = 0 ∨ yearMs < request.durationMs) .invalidDuration >>= fun _ =>
        failIf (request.humanSnapshot.eligibleCount = 0 ∨ request.humanSnapshot.root = Hash.zero)
          .invalidSnapshot >>= fun _ =>
        planChannels request.durationMs request.openingCirculating
          request.humanSnapshot.eligibleCount.toNat request.service request.treasury policy) := by
  choose rest hrest using exists_checkedSub_equalPart
  simp only [planScalableEpoch, planHumanShare, planChannels, checkedMul_equalPart, okOr,
    hrest, ok_bind, map_bind, map_pure, bind_assoc, pure_bind]
  cases policy.validate <;> rfl

/-- What the arithmetic succeeds with stays within the caps. -/
lemma within_of_planChannels
    {c : Channels} (h : planChannels durationMs opening count service treasury policy = .ok c) :
    c.Within := by
  unfold planChannels at h
  simp only [↓failIf_bind_ok, bind_ok] at h
  obtain ⟨humanCap, -, serviceCap, -, treasuryCap, -, totalCap, -, serviceIssued, hservice,
    treasuryIssued, htreasury, issued, -, totalIssued, -, -, h⟩ := h
  cases h
  exact ⟨Nat.div_mul_le_self _ _, le_of_validateAllocations hservice,
    le_of_validateAllocations htreasury⟩

/-- Floors of parts add up to at most the floor of the whole. -/
lemma proportion_add_le (hvalid : policy.validate = .ok ()) (opening : Amount) (durationMs : UInt64) :
    proportion opening policy.humanFloorPpm durationMs +
      proportion opening policy.serviceCeilingPpm durationMs +
      proportion opening policy.treasuryCeilingPpm durationMs ≤
        proportion opening policy.totalCeilingPpm durationMs := by
  have hsum : policy.humanFloorPpm.toNat + policy.serviceCeilingPpm.toNat +
      policy.treasuryCeilingPpm.toNat ≤ policy.totalCeilingPpm.toNat := by
    simp only [IssuancePolicy.validate] at hvalid
    split_ifs at hvalid with _ hchannels
    omega
  simp only [proportion, mul_right_comm opening.val _ durationMs.toNat]
  calc _ ≤ _ := Nat.add_le_add_right (Nat.div_add_div_le_add_div ..) _
    _ ≤ _ := Nat.div_add_div_le_add_div ..
    _ ≤ _ := Nat.div_le_div_right (by rw [← mul_add, ← mul_add]; gcongr)

lemma prorated_ne_totalExceeded : prorated supply ppm durationMs ≠ .error .totalExceeded := by
  simp only [prorated]
  split_ifs <;> simp

lemma Amount.checkedAdd_ne_totalExceeded {a b : Amount} :
    a.checkedAdd b ≠ .error .totalExceeded := by
  unfold checkedAdd
  split_ifs <;> simp

lemma validateAllocations_ne_totalExceeded :
    validateAllocations allocations cap ≠ .error .totalExceeded := by
  have hsum : ∀ allocations seen total,
      sumAllocations allocations seen total ≠ .error .totalExceeded := by
    intro allocations
    induction allocations with
    | nil => simp [sumAllocations]
    | cons a rest ih =>
      exact fun seen total => bind_ne_error (failIf_ne_error (by simp)) fun _ _ =>
        bind_ne_error Amount.checkedAdd_ne_totalExceeded fun total _ => ih _ total
  exact bind_ne_error (hsum _ _ _) fun total _ =>
    bind_ne_error (failIf_ne_error (by simp)) fun _ _ => by simp

/-- The channels of a valid policy never exceed the total cap. -/
lemma planChannels_ne_totalExceeded (hvalid : policy.validate = .ok ()) :
    planChannels durationMs opening count service treasury policy ≠ .error .totalExceeded := by
  refine bind_ne_error prorated_ne_totalExceeded fun humanCap hhuman => ?_
  refine bind_ne_error prorated_ne_totalExceeded fun serviceCap hservice => ?_
  refine bind_ne_error prorated_ne_totalExceeded fun treasuryCap htreasury => ?_
  refine bind_ne_error prorated_ne_totalExceeded fun totalCap htotal => ?_
  refine bind_ne_error validateAllocations_ne_totalExceeded fun serviceIssued hserviceLe => ?_
  refine bind_ne_error validateAllocations_ne_totalExceeded fun treasuryIssued htreasuryLe => ?_
  refine bind_ne_error Amount.checkedAdd_ne_totalExceeded fun issued hissued => ?_
  refine bind_ne_error Amount.checkedAdd_ne_totalExceeded fun totalIssued htotalIssued => ?_
  refine bind_ne_error (fun hfail => ?_) fun _ _ => by simp
  -- the floors of the channels bound what is issued, and their sum the floor of the total
  have hexceeded : totalCap.val < totalIssued.val := (failIf_error.mp hfail).1
  have hhumanLe : (equalPart humanCap count).val ≤ humanCap.val := Nat.div_mul_le_self _ _
  have hserviceLe : serviceIssued.val ≤ serviceCap.val := le_of_validateAllocations hserviceLe
  have htreasuryLe : treasuryIssued.val ≤ treasuryCap.val := le_of_validateAllocations htreasuryLe
  have hfloors := proportion_add_le hvalid opening durationMs
  rw [← prorated_eq_proportion hhuman, ← prorated_eq_proportion hservice,
    ← prorated_eq_proportion htreasury, ← prorated_eq_proportion htotal] at hfloors
  rw [Amount.checkedAdd_ok] at hissued htotalIssued
  omega

/-! ### The two ways of planning agree -/

lemma canonicalHumans_ok {humans sorted : List String} (h : canonicalHumans humans = .ok sorted) :
    sorted.length = humans.toFinset.card := by
  obtain ⟨-, h⟩ := failIf_bind_ok.mp h
  obtain ⟨-, h⟩ := failIf_bind_ok.mp h
  cases h
  exact Finset.length_sort _

/-- Both planners succeed with what the same arithmetic gives. -/
lemma planEpoch_channels {request : EpochRequest} {plan : EpochPlan}
    (h : planEpoch request policy = .ok plan) :
    planChannels request.durationMs request.openingCirculating
      request.eligibleHumans.toFinset.card request.service request.treasury policy =
        .ok plan.channels := by
  have hmap := map_channels_planEpoch request policy
  rw [h] at hmap
  obtain ⟨-, -, hmap⟩ := bind_ok.mp hmap.symm
  obtain ⟨-, hmap⟩ := failIf_bind_ok.mp hmap
  obtain ⟨humans, hhumans, hmap⟩ := bind_ok.mp hmap
  rwa [canonicalHumans_ok hhumans] at hmap

lemma planScalableEpoch_channels {plan : ScalableEpochPlan}
    (h : planScalableEpoch request policy = .ok plan) :
    planChannels request.durationMs request.openingCirculating
      request.humanSnapshot.eligibleCount.toNat request.service request.treasury policy =
        .ok plan.channels := by
  have hmap := map_channels_planScalableEpoch request policy
  rw [h] at hmap
  obtain ⟨-, -, hmap⟩ := bind_ok.mp hmap.symm
  obtain ⟨-, hmap⟩ := failIf_bind_ok.mp hmap
  exact (failIf_bind_ok.mp hmap).2

lemma IssuancePolicy.validate_ne_totalExceeded : policy.validate ≠ .error .totalExceeded := by
  simp only [validate]
  split_ifs <;> simp

lemma planEpoch_ne_totalExceeded {request : EpochRequest} :
    planEpoch request policy ≠ .error .totalExceeded := by
  rw [← map_ne_error, map_channels_planEpoch]
  refine bind_ne_error IssuancePolicy.validate_ne_totalExceeded fun _ hvalid => ?_
  refine bind_ne_error (failIf_ne_error (by simp)) fun _ _ => ?_
  refine bind_ne_error ?_ fun _ _ => planChannels_ne_totalExceeded hvalid
  exact bind_ne_error (failIf_ne_error (by simp)) fun _ _ =>
    bind_ne_error (failIf_ne_error (by simp)) fun _ _ => by simp

lemma planScalableEpoch_ne_totalExceeded :
    planScalableEpoch request policy ≠ .error .totalExceeded := by
  rw [← map_ne_error, map_channels_planScalableEpoch]
  refine bind_ne_error IssuancePolicy.validate_ne_totalExceeded fun _ hvalid => ?_
  refine bind_ne_error (failIf_ne_error (by simp)) fun _ _ => ?_
  exact bind_ne_error (failIf_ne_error (by simp)) fun _ _ => planChannels_ne_totalExceeded hvalid

/-- Every cap is the floor of the exact product, no plan fails at the total cap or issues more than
a channel's cap, and plans for equally many humans have the same channels. -/
theorem planned_channels :
    (∀ supply ppm durationMs cap, prorated supply ppm durationMs = .ok cap →
      cap.val = supply.val * ppm.toNat * durationMs.toNat / (million * yearMs.toNat)) ∧
    ∀ (policy : IssuancePolicy) (scalable : ScalableEpochRequest) (request : EpochRequest),
      planScalableEpoch scalable policy ≠ .error .totalExceeded ∧
      planEpoch request policy ≠ .error .totalExceeded ∧
      (∀ plan, planScalableEpoch scalable policy = .ok plan → plan.channels.Within) ∧
      (∀ plan, planEpoch request policy = .ok plan → plan.channels.Within) ∧
      (scalable.durationMs = request.durationMs →
        scalable.openingCirculating = request.openingCirculating →
        scalable.service = request.service → scalable.treasury = request.treasury →
        scalable.humanSnapshot.eligibleCount.toNat = request.eligibleHumans.toFinset.card →
        (∀ plan plan', planScalableEpoch scalable policy = .ok plan →
          planEpoch request policy = .ok plan' → plan.channels = plan'.channels) ∧
        (request.eligibleHumans ≠ [] → request.eligibleHumans.Nodup →
          "" ∉ request.eligibleHumans → scalable.humanSnapshot.root ≠ Hash.zero →
          ScalableEpochPlan.channels <$> planScalableEpoch scalable policy =
            EpochPlan.channels <$> planEpoch request policy)) := by
  refine ⟨fun _ _ _ _ h => prorated_eq_proportion h, fun policy scalable request =>
    ⟨planScalableEpoch_ne_totalExceeded, planEpoch_ne_totalExceeded,
      fun _ h => within_of_planChannels (planScalableEpoch_channels h),
      fun _ h => within_of_planChannels (planEpoch_channels h), ?_⟩⟩
  intro hduration hopening hservice htreasury hcount
  constructor
  · intro plan plan' hplan hplan'
    have hchannels := planScalableEpoch_channels hplan
    rw [hduration, hopening, hservice, htreasury, hcount, planEpoch_channels hplan'] at hchannels
    exact (Except.ok.inj hchannels).symm
  · intro hne hnodup hnames hroot
    have hcanonical : canonicalHumans request.eligibleHumans =
        .ok request.eligibleHumans.toFinset.sort := by
      simp [canonicalHumans, failIf, hne, hnames, List.toFinset_card_of_nodup hnodup, ok_bind]
    have hpos : scalable.humanSnapshot.eligibleCount ≠ 0 := by
      intro hzero
      rw [hzero] at hcount
      exact hne (List.toFinset_eq_empty_iff _ |>.mp (Finset.card_eq_zero.mp hcount.symm))
    rw [map_channels_planScalableEpoch, map_channels_planEpoch, hcanonical]
    simp only [failIf, hpos, hroot, or_self, if_false, ok_bind, hduration, hopening, hservice,
      htreasury, hcount, Finset.length_sort]

end Mininet

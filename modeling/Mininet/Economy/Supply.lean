import Mininet.Economy.Ledger

/-!
# Supply over a run of epochs

Every epoch moves the policy time forward and appends positions sized by what circulated before.
What circulates never shrinks and stays within what was created; the one thing that no epoch checks
is that it still fits an amount.
-/

namespace Mininet

open Codec Fallible

namespace MonetaryLedger

/-- A ledger that epochs under the D-0074 policy lead to. -/
inductive Reachable : MonetaryLedger → Prop
  | new (genesisCirculating : Amount) : Reachable (new genesisCirculating)
  | epoch {l l' : MonetaryLedger} {plan : ScalableEpochPlan} (hl : Reachable l)
      (h : l.applyEpoch plan .d0074 = .ok l') : Reachable l'

/-- All that was issued is in positions, and every position has started. -/
structure Sound (l : MonetaryLedger) : Prop where
  issued : l.totalIssued.val = l.granted
  started : ∀ p ∈ l.positions, p.startsAtPolicyMs ≤ l.policyTimeMs

variable {plan : ScalableEpochPlan} {l : MonetaryLedger} {policy : IssuancePolicy}
  {l' : MonetaryLedger}

lemma sound_new (genesis : Amount) : (new genesis).Sound := ⟨rfl, by simp [new]⟩

lemma startsAtPolicyMs_of_mem_positions {stop : U128} {p : VestingPosition}
    (h : p ∈ plan.positions stop) : p.startsAtPolicyMs = stop := by
  rcases List.mem_cons.mp h with rfl | h
  · rfl
  · obtain ⟨grant, -, rfl⟩ := List.mem_map.mp h
    rfl

lemma Sound.applyEpoch (hl : l.Sound) (h : l.applyEpoch plan policy = .ok l') : l'.Sound := by
  obtain ⟨-, hshape, stop, totalIssued, hstop, htotal, rfl⟩ := applyEpoch_ok h
  have hsum := sum_positions_of_plan stop hshape
  have hissued := hl.issued
  constructor
  case issued =>
    simp only [granted, List.map_append, List.sum_append] at hissued ⊢
    omega
  case started =>
    intro p hp
    rcases List.mem_append.mp hp with hp | hp
    · exact (hl.started p hp).trans (Fin.le_def.mpr hstop)
    · exact (startsAtPolicyMs_of_mem_positions hp).le

lemma Reachable.sound (h : l.Reachable) : l.Sound := by
  induction h with
  | new genesis => exact sound_new genesis
  | epoch _ h ih => exact ih.applyEpoch h

/-- What circulates can be computed exactly when it fits an amount. -/
lemma exists_circulatingSupply_iff :
    (∃ c, l.circulatingSupply = .ok c) ↔ l.circulating < 2 ^ 128 := by
  constructor
  · rintro ⟨c, hc⟩
    exact (circulatingSupply_ok.mp hc) ▸ c.isLt
  · intro hfits
    exact ⟨⟨l.circulating, hfits⟩, circulatingSupply_ok.mpr rfl⟩

lemma Sound.circulating_le (hl : l.Sound) :
    l.circulating ≤ l.genesisCirculating.val + l.totalIssued.val :=
  hl.issued ▸ l.circulating_le

/-- Where the total supply fits, so do the circulating and the locked part. -/
lemma Sound.lockedSupply_ok (hl : l.Sound) {total : Amount} (h : l.totalSupply = .ok total) :
    ∃ c locked, l.circulatingSupply = .ok c ∧ c ≤ total ∧ l.lockedSupply = .ok locked := by
  have htotal := Amount.checkedAdd_ok.mp h
  have hle := hl.circulating_le
  have hlt := total.isLt
  have hc : l.circulatingSupply = .ok ⟨l.circulating, by omega⟩ := circulatingSupply_ok.mpr rfl
  refine ⟨_, ⟨total.val - l.circulating, by omega⟩, hc, Fin.le_def.mpr (by simp only; omega), ?_⟩
  refine bind_ok.mpr ⟨total, h, bind_ok.mpr ⟨_, hc, ?_⟩⟩
  exact Amount.checkedSub_ok.mpr (by simp only; omega)

/-- An epoch is applied to a ledger whose circulating supply could be computed. -/
lemma exists_circulatingSupply_of_applyEpoch
    (h : l.applyEpoch plan policy = .ok l') : ∃ c, l.circulatingSupply = .ok c := by
  simp only [applyEpoch, ↓failIf_bind_ok, bind_ok] at h
  obtain ⟨_, -, -, -, circulating, hcirculating, -⟩ := h
  exact ⟨circulating, hcirculating⟩

/-- **The monetary invariant.** In every reachable ledger the positions add up to what was issued
and have all started. The circulating supply can be computed if and only if it fits an amount; it is
then within the total supply, so the locked supply can be computed whenever the total can. From a
ledger to its successor it does not shrink, so the difference can be taken. -/
theorem supply_invariant {l : MonetaryLedger} (h : l.Reachable) :
    l.totalIssued.val = l.granted ∧
    (∀ p ∈ l.positions, p.startsAtPolicyMs ≤ l.policyTimeMs) ∧
    ((∃ c, l.circulatingSupply = .ok c) ↔ l.circulating < 2 ^ 128) ∧
    (∀ c, l.circulatingSupply = .ok c →
      c.val ≤ l.genesisCirculating.val + l.totalIssued.val) ∧
    (∀ total, l.totalSupply = .ok total → ∃ c locked, l.circulatingSupply = .ok c ∧ c ≤ total ∧
      l.lockedSupply = .ok locked) ∧
    ∀ plan l', l.applyEpoch plan .d0074 = .ok l' → ∃ before, l.circulatingSupply = .ok before ∧
      ∀ after, l'.circulatingSupply = .ok after → before ≤ after ∧
        ∃ newly, after.checkedSub before = .ok newly := by
  have hsound := h.sound
  refine ⟨hsound.issued, hsound.started, exists_circulatingSupply_iff, ?_,
    fun total htotal => hsound.lockedSupply_ok htotal, ?_⟩
  · intro c hc
    rw [circulatingSupply_ok.mp hc]
    exact hsound.circulating_le
  · intro plan l' happly
    obtain ⟨before, hbefore⟩ := exists_circulatingSupply_of_applyEpoch happly
    refine ⟨before, hbefore, fun after hafter => ?_⟩
    have hle := circulating_le_applyEpoch happly
    rw [← circulatingSupply_ok.mp hbefore, ← circulatingSupply_ok.mp hafter] at hle
    refine ⟨Fin.le_def.mpr hle, ⟨after.val - before.val, by omega⟩, ?_⟩
    exact Amount.checkedSub_ok.mpr (by simp only; omega)

/-! ### Two first epochs -/

/-- A year's first epoch for one human, with one grant for service. -/
def firstEpoch (opening service : Amount) : Except EconomyError ScalableEpochPlan :=
  planScalableEpoch {
    epoch := 0
    durationMs := yearMs
    openingCirculating := opening
    humanSnapshot := ⟨Vector.replicate 32 1, 1⟩
    service := [⟨"relay", service⟩]
    treasury := [] } .d0074

theorem supply_after_firstEpoch :
    ∃ plan l, firstEpoch 1000000 50 = .ok plan ∧ Reachable l ∧
      (new 1000000).applyEpoch plan .d0074 = .ok l ∧ l.totalIssued.val = l.granted ∧
      ∃ c, l.circulatingSupply = .ok c ∧ c.val = 1000050 := by
  obtain ⟨plan, hplan, h⟩ := exists_of_any (x := firstEpoch 1000000 50)
    (fun plan : ScalableEpochPlan =>
      ((new 1000000).applyEpoch plan .d0074).toOption.any fun l : MonetaryLedger =>
      decide (l.circulating = 1000050)) (by decide +kernel)
  obtain ⟨l, happly, hcirculating⟩ := exists_of_any _ h
  have hcirculating : l.circulating = 1000050 := of_decide_eq_true hcirculating
  have hl : l.Reachable := .epoch (.new 1000000) happly
  obtain ⟨hissued, -, hfits, -⟩ := supply_invariant hl
  obtain ⟨c, hc⟩ := hfits.mpr (by rw [hcirculating]; norm_num)
  exact ⟨plan, l, hplan, hl, happly, hissued, c, hc,
    (circulatingSupply_ok.mp hc).trans hcirculating⟩

/-- The largest supply that the yearly shares divide without remainder. -/
def largestDivisible : Amount :=
  Fin.ofNat _ (2 ^ 128 / (million * yearMs.toNat) * (million * yearMs.toNat))

theorem circulatingSupply_overflows :
    ∃ plan l, firstEpoch largestDivisible (Fin.ofNat _ (million * yearMs.toNat)) = .ok plan ∧
      (new largestDivisible).applyEpoch plan .d0074 = .ok l ∧ Reachable l ∧
      l.circulatingSupply = .error .overflow := by
  obtain ⟨plan, hplan, h⟩ := exists_of_any
    (x := firstEpoch largestDivisible (Fin.ofNat _ (million * yearMs.toNat)))
    (fun plan : ScalableEpochPlan =>
      ((new largestDivisible).applyEpoch plan .d0074).toOption.any fun l : MonetaryLedger =>
      decide (l.circulatingSupply = .error .overflow)) (by decide +kernel)
  obtain ⟨l, happly, hoverflow⟩ := exists_of_any _ h
  exact ⟨plan, l, hplan, happly, .epoch (.new _) happly, of_decide_eq_true hoverflow⟩

end MonetaryLedger

end Mininet

import Mininet.Execution.Steps

/-!
# Conservation of supply

Value sits in accounts, in the unallocated remainder or in the shielded pool, and the three add up
to what circulates. Transfers move it between accounts, fees from the pool to the remainder, and an
epoch adds to the remainder what it makes circulate. The executor re-checks only the sum of the
three; that the tracked total of the accounts is right is an invariant.
-/

namespace Mininet

open Codec Fallible TreeMaps
open Std (ExtTreeMap LawfulEqCmp)

namespace LedgerState

/-- The three places add up to the circulating supply, and the first is tracked rightly. -/
structure Conserved (s : LedgerState) : Prop where
  allocated : total Fin.val s.balances = s.allocatedCirculating.val
  nonzero : ∀ (k : Bytes) (a : Amount), s.balances[k]? = some a → a ≠ Amount.zero
  supply : s.allocatedCirculating.val + s.unallocatedCirculating.val + s.shieldedPool.val =
    s.monetary.circulating
  fits : s.monetary.circulating < 2 ^ 128

variable {s : LedgerState}

lemma Conserved.circulatingSupply_eq (h : s.Conserved) :
    ∃ c : Amount, s.monetary.circulatingSupply = .ok c ∧
      s.allocatedCirculating.val + s.unallocatedCirculating.val + s.shieldedPool.val = c.val :=
  ⟨⟨_, h.fits⟩, MonetaryLedger.circulatingSupply_ok.mpr rfl, h.supply⟩

lemma verifySupplyConservation_ok : s.verifySupplyConservation = .ok () ↔
      s.allocatedCirculating.val + s.unallocatedCirculating.val + s.shieldedPool.val =
        s.monetary.circulating ∧ s.monetary.circulating < 2 ^ 128 := by
  simp only [verifySupplyConservation, bind_ok, mapError_ok, Amount.checkedAdd_ok,
    MonetaryLedger.circulatingSupply_ok, failIf_ok, ne_eq, not_not]
  constructor
  · rintro ⟨transparent, htransparent, accounted, haccounted, circulating, hcirculating, rfl⟩
    have hlt := accounted.isLt
    exact ⟨by omega, by omega⟩
  · rintro ⟨hsum, hfits⟩
    exact ⟨⟨_, by omega⟩, rfl, ⟨s.monetary.circulating, hfits⟩, hsum, _, rfl, rfl⟩

lemma foldlM_checkedAdd_values {es : List (Bytes × Amount)} {start result : Amount} :
    es.foldlM (fun total e =>
      (total.checkedAdd e.2).mapError fun _ => ExecutionError.amountOverflow) start = .ok result ↔
      result.val = start.val + (es.map fun e => e.2.val).sum := by
  induction es generalizing start with
  | nil =>
    rw [List.foldlM_nil, pure_ok]
    simp [Fin.ext_iff, eq_comm]
  | cons e es ih =>
    simp only [List.foldlM_cons, bind_ok, mapError_ok, Amount.checkedAdd_ok, ih,
      List.map_cons, List.sum_cons]
    constructor
    · rintro ⟨mid, hmid, hresult⟩
      omega
    · intro hresult
      have hlt := result.isLt
      exact ⟨⟨start.val + e.2.val, by omega⟩, rfl, by simp only; omega⟩

lemma verifyBalanceMapTotal_ok :
    s.verifyBalanceMapTotal = .ok () ↔ total Fin.val s.balances = s.allocatedCirculating.val := by
  simp only [verifyBalanceMapTotal, bind_ok, foldlM_checkedAdd_values, failIf_ok, ne_eq,
    not_not, total]
  constructor
  · rintro ⟨recomputed, hsum, rfl⟩
    exact (hsum.trans (Nat.zero_add _)).symm
  · intro hsum
    exact ⟨_, hsum.symm.trans (Nat.zero_add _).symm, rfl⟩

/-! ### Genesis -/

lemma conserved_withNetworkAndGenesisSupply (networkId : Hash) (genesis : Amount) :
    (withNetworkAndGenesisSupply networkId genesis).Conserved where
  allocated := by simp [withNetworkAndGenesisSupply, Amount.zero]
  nonzero _ _ h := by simp [withNetworkAndGenesisSupply] at h
  supply := by
    simp [withNetworkAndGenesisSupply, shieldedPool, ShieldedLedger.empty, Amount.zero,
      MonetaryLedger.new, MonetaryLedger.circulating]
  fits := by
    simp [withNetworkAndGenesisSupply, MonetaryLedger.new, MonetaryLedger.circulating]

section

variable [Primitives] {allocations : List (Bytes × Amount)}

lemma foldlM_allocate_invariant {acc : ExtTreeMap Bytes Amount compare × Amount}
    (h : allocations.foldlM allocate (∅, Amount.zero) = .ok acc) :
    total Fin.val acc.1 = acc.2.val ∧
      ∀ (k : Bytes) (a : Amount), acc.1[k]? = some a → a ≠ Amount.zero ∧ isSupportedAccount k := by
  refine foldlM_invariant (P := fun acc : ExtTreeMap Bytes Amount compare × Amount =>
    total Fin.val acc.1 = acc.2.val ∧ ∀ (k : Bytes) (a : Amount), acc.1[k]? = some a →
      a ≠ Amount.zero ∧ isSupportedAccount k) ?_ ?_ h
  · rintro ⟨balances, allocated⟩ ⟨account, amount⟩ - t ⟨hsum, hall⟩ hstep
    obtain ⟨hnew, hstep⟩ := failIf_bind_ok.mp hstep
    obtain ⟨allocated', hadd, hresult⟩ := bind_ok.mp hstep
    rw [mapError_ok, Amount.checkedAdd_ok] at hadd
    cases hresult
    simp only [not_or, not_not] at hnew
    obtain ⟨hsupported, hamount, habsent⟩ := hnew
    constructor
    · have htotal := total_insert Fin.val balances account amount
      rw [ExtTreeMap.getElem?_eq_none habsent] at htotal
      simp only [Option.elim_none] at htotal
      simp only at hsum hadd ⊢
      omega
    · intro k a hk
      rw [ExtTreeMap.getElem?_insert] at hk
      split_ifs at hk with heq
      · cases hk
        rw [← LawfulEqCmp.eq_of_compare heq]
        exact ⟨hamount, hsupported⟩
      · exact hall k a hk
  · exact ⟨by simp [Amount.zero], fun k a hk => by simp at hk⟩

lemma conserved_withNetworkAndGenesisBalances {networkId : Hash} {genesis : Amount} {s : LedgerState}
    (h : withNetworkAndGenesisBalances networkId genesis allocations = .ok s) : s.Conserved := by
  obtain ⟨⟨balances, allocated⟩, hfold, h⟩ := bind_ok.mp h
  obtain ⟨heq, hresult⟩ := failIf_bind_ok.mp h
  obtain ⟨hsum, hall⟩ := foldlM_allocate_invariant hfold
  have hbase := conserved_withNetworkAndGenesisSupply networkId genesis
  have hsupply := hbase.supply
  cases hresult
  rw [not_not] at heq
  subst heq
  refine ⟨hsum, fun k a hk => (hall k a hk).1, ?_, hbase.fits⟩
  simp only [withNetworkAndGenesisSupply, shieldedPool] at hsupply ⊢
  omega

end

lemma conserved_withShieldedGenesis {networkId : Hash}
    {allocations : List ShieldedGenesisAllocation} {verifier : ClaimVerifier}
    (h : withShieldedGenesis networkId allocations verifier = .ok s) : s.Conserved := by
  obtain ⟨shielded, -, h⟩ := bind_ok.mp h
  obtain ⟨⟨⟩, hverify, hresult⟩ := bind_ok.mp h
  cases hresult
  obtain ⟨hsum, hfits⟩ := verifySupplyConservation_ok.mp hverify
  have hsupply := conserved_withNetworkAndGenesisSupply networkId shielded.poolMicro
  exact ⟨hsupply.allocated, hsupply.nonzero, hsum, hfits⟩

section

variable [Primitives]

variable {s s' : LedgerState} {c : PaymentClaim} {verifier : Option ClaimVerifier}
  {body : SettlementBlockBody}

lemma Genesis.conserved (h : s.Genesis) : s.Conserved := by
  cases h with
  | supply networkId genesis => exact conserved_withNetworkAndGenesisSupply networkId genesis
  | balances h => exact conserved_withNetworkAndGenesisBalances h
  | shielded h => exact conserved_withShieldedGenesis h

/-! ### Steps -/

omit [Primitives] in
lemma balance_eq (s : LedgerState) (account : Bytes) :
    (s.balance account).val = (s.balances[account]?).elim 0 Fin.val := by
  rw [balance, ExtTreeMap.getD_eq_getD_getElem?]
  cases s.balances[account]? <;> simp [Amount.zero]

lemma amount_ne_zero (hok : c.verifyClaimSignature = .ok ()) : c.amount.val ≠ 0 := by
  have hamount := (PaymentClaim.of_verifyClaimSignature hok).1
  have hval : c.amount.val = c.amountMicro.toNat :=
    Nat.mod_eq_of_lt (c.amountMicro.toNat_lt.trans (by decide))
  rw [hval]
  exact fun h => hamount (UInt64.toNat_inj.mp h)

omit [Primitives] in
/-- Debiting one account and crediting another keeps the total. -/
lemma total_transfer (h : s.transfer c = .ok s') :
    total Fin.val s'.balances = total Fin.val s.balances := by
  obtain ⟨-, rfl⟩ | ⟨hne, debited, credited, hdebited, hcredited, rfl⟩ := transfer_ok h
  · rfl
  rw [balance_eq] at hdebited hcredited
  -- the map after the debit: its total, and what it holds for the payee
  obtain ⟨debitedMap, hmap, htotal, hpayee⟩ : ∃ m : ExtTreeMap Bytes Amount compare,
      (if debited = Amount.zero then s.balances.erase c.payer
        else s.balances.insert c.payer debited) = m ∧
      total Fin.val m + c.amount.val = total Fin.val s.balances ∧
      m[c.payee]? = s.balances[c.payee]? := by
    refine ⟨_, rfl, ?_, ?_⟩
    · have herase := total_erase Fin.val s.balances c.payer
      have hinsert := total_insert Fin.val s.balances c.payer debited
      split_ifs with hzero
      · simp only [hzero, Amount.zero, Fin.val_zero] at hdebited
        omega
      · omega
    · split_ifs <;> simp [ExtTreeMap.getElem?_erase, ExtTreeMap.getElem?_insert, hne]
  have hinsert := total_insert Fin.val debitedMap c.payee credited
  rw [hpayee] at hinsert
  rw [hmap]
  simp only
  omega

lemma Conserved.transfer (hs : s.Conserved) (hok : c.verifyClaimSignature = .ok ())
    (h : s.transfer c = .ok s') : s'.Conserved := by
  have htotal := total_transfer h
  have hamount := amount_ne_zero hok
  obtain ⟨-, rfl⟩ | ⟨-, debited, credited, -, hcredited, rfl⟩ := transfer_ok h
  · exact hs
  refine ⟨htotal.trans hs.allocated, fun k a hk => ?_, hs.supply, hs.fits⟩
  rw [ExtTreeMap.getElem?_insert] at hk
  split_ifs at hk
  · cases hk
    rintro rfl
    simp only [Amount.zero, Fin.val_zero] at hcredited
    omega
  · rw [ExtTreeMap.getElem?_erase] at hk
    split_ifs at hk
    exact hs.nonzero k a hk
  · rw [ExtTreeMap.getElem?_insert] at hk
    split_ifs at hk with hpayer
    · cases hk
      assumption
    · exact hs.nonzero k a hk

lemma Conserved.claimStep (hs : s.Conserved) (h : ClaimStep s c s') : s'.Conserved := by
  cases h with
  | dropped => exact hs
  | rejected => exact ⟨hs.allocated, hs.nonzero, hs.supply, hs.fits⟩
  | executed hok _ hpaid =>
    have hpaid := hs.transfer hok hpaid
    exact ⟨hpaid.allocated, hpaid.nonzero, hpaid.supply, hpaid.fits⟩

omit [Primitives] in
/-- A fee leaves the pool and joins the remainder. -/
lemma Conserved.groupStep {verifier : ClaimVerifier} {digest : Hash} (hs : s.Conserved)
    (h : GroupStep verifier s digest s') : s'.Conserved := by
  cases h with
  | skipped => exact hs
  | taken _ _ _ _ happly hfee =>
    have hsupply := hs.supply
    have hpool := ShieldedLedger.pool_apply happly
    refine ⟨hs.allocated, hs.nonzero, ?_, hs.fits⟩
    simp only [shieldedPool] at hsupply ⊢
    omega

omit [Primitives] in
lemma Conserved.applyMonetaryEpoch {epoch : Option ScalableEpochPlan} (hs : s.Conserved)
    (h : s.applyMonetaryEpoch epoch = .ok s') : s'.Conserved := by
  obtain rfl | ⟨_, _, monetary, unallocated, _, _, hunallocated, hfits, rfl⟩ :=
    applyMonetaryEpoch_ok h
  · exact hs
  · have hsupply := hs.supply
    refine ⟨hs.allocated, hs.nonzero, ?_, hfits⟩
    simp only [shieldedPool] at hsupply ⊢
    omega

lemma Conserved.applyBlock
    (hs : s.Conserved) (h : s.applyBlockWithVerifier body verifier = .ok s') : s'.Conserved :=
  applyBlock_invariant (fun _ _ _ hs h => hs.claimStep h) (fun _ _ _ _ _ hs h => hs.groupStep h)
    (fun _ _ _ hs h => hs.applyMonetaryEpoch h) hs h

lemma Reachable.conserved (h : s.Reachable) : s.Conserved := by
  obtain ⟨g, blocks, hgenesis, hruns⟩ := h
  exact hruns.invariant (fun _ _ _ _ hs h => hs.applyBlock h) hgenesis.conserved

/-! ### The checks never fail -/

omit [Primitives] in
/-- A transfer that is covered can only fail because the payee's balance overflows. -/
lemma transfer_error {e : ExecutionError} (hfunds : c.amount ≤ s.balance c.payer)
    (h : s.transfer c = .error e) : e = .amountOverflow := by
  unfold transfer at h
  split at h
  next => cases h
  next =>
    rcases bind_error.mp h with h | ⟨debited, -, h⟩
    · obtain ⟨_, h, -⟩ := mapError_error.mp h
      exact absurd (Amount.lt_of_checkedSub_error h) (not_lt.mpr hfunds)
    · rcases bind_error.mp h with h | ⟨credited, -, h⟩
      · obtain ⟨_, -, rfl⟩ := mapError_error.mp h
        rfl
      · cases h

/-- Whatever the state, a claim that is executed was covered. -/
lemma applyOneClaim_ne_violation (s : LedgerState) (c : PaymentClaim) :
    s.applyOneClaim c ≠ .error .supplyConservationViolation := by
  intro h
  unfold applyOneClaim at h
  split at h
  next => cases h
  next =>
    split_ifs at h with _ _ _ hfunds
    rcases bind_error.mp h with h | ⟨paid, -, h⟩
    · cases transfer_error (not_lt.mp hfunds) h
    · cases h

omit [Primitives] in
/-- Supply that circulates keeps circulating, so an epoch never reports a violation. -/
lemma applyMonetaryEpoch_ne_violation (s : LedgerState) (epoch : Option ScalableEpochPlan) :
    s.applyMonetaryEpoch epoch ≠ .error .supplyConservationViolation := by
  intro h
  cases epoch with
  | none => cases h
  | some plan =>
    rcases bind_error.mp h with h | ⟨bytes, -, h⟩
    · obtain ⟨_, -, h⟩ := mapError_error.mp h
      cases h
    rcases bind_error.mp h with h | ⟨before, hbefore, h⟩
    · obtain ⟨_, -, h⟩ := mapError_error.mp h
      cases h
    rcases bind_error.mp h with h | ⟨monetary, hmonetary, h⟩
    · obtain ⟨_, -, h⟩ := mapError_error.mp h
      cases h
    rcases bind_error.mp h with h | ⟨after, hafter, h⟩
    · obtain ⟨_, -, h⟩ := mapError_error.mp h
      cases h
    rw [mapError_ok, MonetaryLedger.circulatingSupply_ok] at hbefore hafter
    rcases bind_error.mp h with h | ⟨newly, -, h⟩
    · obtain ⟨_, h, -⟩ := mapError_error.mp h
      have hlt := Amount.lt_of_checkedSub_error h
      have hle := MonetaryLedger.circulating_le_applyEpoch (mapError_ok.mp hmonetary)
      omega
    rcases bind_error.mp h with h | ⟨unallocated, -, h⟩
    · obtain ⟨_, -, h⟩ := mapError_error.mp h
      cases h
    · cases h

/-- The only violation a block can report is one that applying its shielded spends reports. -/
lemma Conserved.of_violation (hs : s.Conserved)
    (h : s.applyBlockWithVerifier body verifier = .error .supplyConservationViolation) :
    ∃ paid, body.claims.foldlM applyOneClaim s = .ok paid ∧
      paid.applyNullifiers body.nullifiers verifier = .error .supplyConservationViolation := by
  unfold applyBlockWithVerifier at h
  rcases bind_error.mp h with h | ⟨_, -, h⟩
  · cases (failIf_error.mp h).2
  rcases bind_error.mp h with h | ⟨_, -, h⟩
  · cases (failIf_error.mp h).2
  rcases bind_error.mp h with h | ⟨_, -, h⟩
  · cases (failIf_error.mp h).2
  rcases bind_error.mp h with h | ⟨_, -, h⟩
  · cases (failIf_error.mp h).2
  rcases bind_error.mp h with h | ⟨paid, hpaid, h⟩
  · obtain ⟨t, c, -, h⟩ := exists_of_foldlM_error h
    exact absurd h (applyOneClaim_ne_violation t c)
  rcases bind_error.mp h with h | ⟨spent, hspent, h⟩
  · exact ⟨paid, hpaid, h⟩
  rcases bind_error.mp h with h | ⟨next, hnext, h⟩
  · exact absurd h (applyMonetaryEpoch_ne_violation spent _)
  -- the three phases keep the invariant, so the last check passes
  have hpaid : paid.Conserved := foldlM_invariant
    (fun _ _ _ _ hs ht => hs.claimStep (claimStep_of_applyOneClaim ht)) hs hpaid
  have hspent : spent.Conserved :=
    applyNullifiers_invariant (fun _ _ _ _ _ hs h => hs.groupStep h) hpaid hspent
  have hnext := hspent.applyMonetaryEpoch hnext
  have hok := verifySupplyConservation_ok.mpr ⟨hnext.supply, hnext.fits⟩
  rcases bind_error.mp h with h | ⟨_, -, h⟩
  · rw [hok] at h
    cases h
  · cases h

/-- **Conservation.** In every reachable state the tracked total is the sum of the balances, no
balance is zero, and accounts, remainder and pool add up to the circulating supply. From such a
state no check of a claim or of a block reports a violation: one that is reported comes from
applying the shielded spends, where a claim's fee can exceed the pool. -/
theorem supply_conserved {s : LedgerState} (h : s.Reachable) :
    total Fin.val s.balances = s.allocatedCirculating.val ∧
    (∀ (k : Bytes) (a : Amount), s.balances[k]? = some a → a ≠ Amount.zero) ∧
    (∃ c : Amount, s.monetary.circulatingSupply = .ok c ∧
      s.allocatedCirculating.val + s.unallocatedCirculating.val + s.shieldedPool.val = c.val) ∧
    (∀ c, s.applyOneClaim c ≠ .error .supplyConservationViolation) ∧
    ∀ body verifier, s.applyBlockWithVerifier body verifier = .error .supplyConservationViolation →
      ∃ paid, body.claims.foldlM applyOneClaim s = .ok paid ∧
        paid.applyNullifiers body.nullifiers verifier = .error .supplyConservationViolation :=
  ⟨h.conserved.allocated, h.conserved.nonzero, h.conserved.circulatingSupply_eq,
    applyOneClaim_ne_violation s, fun _ _ => h.conserved.of_violation⟩

end

theorem supply_conserved_samplePaid :
    letI := Primitives.sample
    samplePaid.Reachable ∧ total Fin.val samplePaid.balances = 1000 ∧
      ∃ c : Amount, samplePaid.monetary.circulatingSupply = .ok c ∧ c.val = 1000 := by
  let := Primitives.sample
  obtain ⟨htotal, -, ⟨c, hc, hsum⟩, -, -⟩ := supply_conserved reachable_samplePaid
  exact ⟨reachable_samplePaid, htotal, c, hc, hsum.symm⟩

end LedgerState

end Mininet

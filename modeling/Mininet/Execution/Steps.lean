import Mininet.Execution.State

/-!
# What executing a block does

Every change to the state is one of a few steps: a claim is dropped, rejected or executed, a group
of shielded spends is skipped or taken, an epoch is applied. Each is inverted once here, and
`applyBlock_invariant` derives from them what a whole block, and `Runs.invariant` what a whole run,
preserves.
-/

namespace Mininet

open Codec Fallible TreeMaps
open Std (ExtTreeMap LawfulEqCmp)

/-! ### Groups of records -/

lemma getElem?_recordGroups (records : List NullifierRecord) (digest : Hash) :
    (recordGroups records)[digest]? =
      if records.filter (fun r => r.claimDigest = digest) = [] then none
      else some (records.filter fun r => r.claimDigest = digest) := by
  induction records using List.reverseRecOn with
  | nil => simp [recordGroups]
  | append_singleton rs r ih =>
    have hstep : recordGroups (rs ++ [r]) =
        (recordGroups rs).insert r.claimDigest ((recordGroups rs).getD r.claimDigest [] ++ [r]) := by
      simp [recordGroups]
    rw [hstep, ExtTreeMap.getElem?_insert, List.filter_append]
    by_cases h : r.claimDigest = digest
    · subst h
      rw [ExtTreeMap.getD_eq_getD_getElem?, ih]
      split_ifs with hnil <;> simp_all
    · simp [h, ih]

/-- The group of a claim is what the records say of it, in their order. -/
lemma eq_of_getElem?_recordGroups {records group : List NullifierRecord} {digest : Hash}
    (h : (recordGroups records)[digest]? = some group) :
    group = records.filter (fun r => r.claimDigest = digest) ∧ group ≠ [] := by
  rw [getElem?_recordGroups] at h
  split_ifs at h with hnil
  cases h
  exact ⟨rfl, hnil⟩

namespace LedgerState

section

variable [Primitives]

/-! ### Claims -/

/-- A claim is executed on its network, to an account, past the payer's last sequence, and out of
sufficient funds. -/
structure Executes (s : LedgerState) (c : PaymentClaim) : Prop where
  network : c.networkId = s.networkId
  payee : isSupportedAccount c.payee
  wins : s.wins c
  funds : c.amount ≤ s.balance c.payer

/-- What executing a claim can do to the state. -/
inductive ClaimStep (s : LedgerState) (c : PaymentClaim) : LedgerState → Prop
  | dropped (h : c.verifyClaimSignature ≠ .ok ()) : ClaimStep s c s
  | rejected (reason : CanonicalRejection) (hok : c.verifyClaimSignature = .ok ())
      (h : ¬ s.Executes c) : ClaimStep s c (s.reject c.claimDigest reason)
  | executed {paid : LedgerState} (hok : c.verifyClaimSignature = .ok ()) (h : s.Executes c)
      (hpaid : s.transfer c = .ok paid) : ClaimStep s c (paid.finalize c)

variable {s s' : LedgerState} {body : SettlementBlockBody} {P : LedgerState → Prop}
  {blocks : List (SettlementBlockBody × Option ClaimVerifier)}
  {claimVerifier : Option ClaimVerifier} {verifier : Option ClaimVerifier}

lemma claimStep_of_applyOneClaim {c : PaymentClaim} (h : s.applyOneClaim c = .ok s') :
    ClaimStep s c s' := by
  unfold applyOneClaim at h
  split at h
  next hbad =>
    cases h
    exact .dropped (by simp [hbad])
  next hok =>
    split at h
    next hnetwork =>
      cases h
      exact .rejected _ hok fun hexec => hnetwork hexec.network
    next hnetwork =>
      split at h
      next hpayee =>
        cases h
        exact .rejected _ hok fun hexec => hpayee hexec.payee
      next hpayee =>
        split at h
        next hwins =>
          cases h
          exact .rejected _ hok fun hexec => hwins hexec.wins
        next hwins =>
          split at h
          next hfunds =>
            cases h
            exact .rejected _ hok fun hexec => absurd hexec.funds (not_le.mpr hfunds)
          next hfunds =>
            obtain ⟨paid, hpaid, hresult⟩ := bind_ok.mp h
            cases hresult
            exact .executed hok ⟨not_not.mp hnetwork, not_not.mp hpayee, not_not.mp hwins,
              not_lt.mp hfunds⟩ hpaid

section

omit [Primitives]

/-- A transfer changes balances only: nothing between an account and itself, otherwise the payer's
is debited, and removed at zero, and the payee's credited. -/
lemma transfer_ok {c : PaymentClaim} (h : s.transfer c = .ok s') : (c.payer = c.payee ∧ s' = s) ∨
      (c.payer ≠ c.payee ∧ ∃ debited credited : Amount,
        (s.balance c.payer).val = c.amount.val + debited.val ∧
        (s.balance c.payee).val + c.amount.val = credited.val ∧
        s' = { s with balances := (if debited = Amount.zero then s.balances.erase c.payer
          else s.balances.insert c.payer debited).insert c.payee credited }) := by
  unfold transfer at h
  split at h
  next heq =>
    cases h
    exact .inl ⟨heq, rfl⟩
  next hne =>
    obtain ⟨debited, hdebited, h⟩ := bind_ok.mp h
    obtain ⟨credited, hcredited, hresult⟩ := bind_ok.mp h
    rw [mapError_ok, Amount.checkedSub_ok] at hdebited
    rw [mapError_ok, Amount.checkedAdd_ok] at hcredited
    cases hresult
    exact .inr ⟨hne, debited, credited, hdebited, hcredited, rfl⟩

/-! ### Shielded spends -/

/-- What applying the group of a claim can do to the state. -/
inductive GroupStep (verifier : ClaimVerifier) (s : LedgerState) (digest : Hash) :
    LedgerState → Prop
  | skipped : GroupStep verifier s digest s
  | taken {group : List NullifierRecord} {effects : ShieldedClaimEffects}
      {shielded : ShieldedLedger} {fee : UInt64} {unallocated : Amount} (hne : group ≠ [])
      (hgroup : ∀ r ∈ group, r.isWellFormed ∧ r.claimDigest = digest)
      (hverify : verifier.verifyClaim s.networkId digest group = some effects)
      (htake : s.takeable digest group)
      (happly : s.shielded.apply digest effects = .ok (shielded, fee))
      (hfee : s.unallocatedCirculating.val + fee.toNat = unallocated.val) :
      GroupStep verifier s digest { s with
        shielded := shielded
        unallocatedCirculating := unallocated
        nullifiers := insertAll s.nullifiers (group.map fun r => (r.keyImage, digest)) }

lemma groupStep_of_applyGroup {verifier : ClaimVerifier} {records : List NullifierRecord}
    {digest : Hash} (hwf : ∀ r ∈ records, r.isWellFormed)
    (h : applyGroup verifier (recordGroups records) s digest = .ok s') :
    GroupStep verifier s digest s' := by
  unfold applyGroup at h
  split at h
  next =>
    cases h
    exact .skipped
  next group hgroup =>
    obtain ⟨rfl, hne⟩ := eq_of_getElem?_recordGroups hgroup
    obtain ⟨effects, heffects, h⟩ := bind_ok.mp h
    split at h
    next htake =>
      obtain ⟨⟨shielded, fee⟩, happly, h⟩ := bind_ok.mp h
      obtain ⟨unallocated, hfee, hresult⟩ := bind_ok.mp h
      rw [mapError_ok, Amount.checkedAdd_ok, Fin.val_ofNat,
        Nat.mod_eq_of_lt (fee.toNat_lt.trans (by decide))] at hfee
      cases hresult
      refine .taken hne (fun r hr => ?_) (okOr_ok.mp heffects) htake happly hfee
      obtain ⟨hr, hdigest⟩ := List.mem_filter.mp hr
      exact ⟨hwf r hr, by simpa using hdigest⟩
    next =>
      cases h
      exact .skipped

/-! ### Epochs -/

/-- An epoch changes the monetary ledger, and what starts to circulate is unallocated. -/
lemma applyMonetaryEpoch_ok {epoch : Option ScalableEpochPlan}
    (h : s.applyMonetaryEpoch epoch = .ok s') :
    s' = s ∨ ∃ (plan : ScalableEpochPlan) (bytes : Bytes) (monetary : MonetaryLedger)
      (unallocated : Amount), plan.toWireBytes = .ok bytes ∧
      s.monetary.applyEpoch plan .d0074 = .ok monetary ∧
      s.unallocatedCirculating.val + monetary.circulating =
        unallocated.val + s.monetary.circulating ∧ monetary.circulating < 2 ^ 128 ∧
      s' = { s with monetary := monetary, unallocatedCirculating := unallocated } := by
  cases epoch with
  | none =>
    cases h
    exact .inl rfl
  | some plan =>
    simp only [applyMonetaryEpoch, bind_ok] at h
    obtain ⟨bytes, hbytes, before, hbefore, monetary, hmonetary, after, hafter, newly, hnewly,
      unallocated, hunallocated, hresult⟩ := h
    rw [mapError_ok] at hbytes hmonetary
    rw [mapError_ok, MonetaryLedger.circulatingSupply_ok] at hbefore hafter
    rw [mapError_ok, Amount.checkedSub_ok] at hnewly
    rw [mapError_ok, Amount.checkedAdd_ok] at hunallocated
    cases hresult
    exact .inr ⟨plan, bytes, monetary, unallocated, hbytes, hmonetary, by omega,
      hafter ▸ after.isLt, rfl⟩

end

/-! ### Blocks and runs -/

/-- The three phases of a block, and the check at its end. -/
lemma applyBlockWithVerifier_ok (h : s.applyBlockWithVerifier body verifier = .ok s') :
    ∃ paid spent, body.claims.foldlM applyOneClaim s = .ok paid ∧
      paid.applyNullifiers body.nullifiers verifier = .ok spent ∧
      spent.applyMonetaryEpoch body.monetaryEpochs.head? = .ok s' ∧
      s'.verifySupplyConservation = .ok () := by
  simp only [applyBlockWithVerifier, ↓failIf_bind_ok, bind_ok] at h
  obtain ⟨-, -, -, -, -, paid, hpaid, spent, hspent, next, hnext, ⟨⟩, hsupply, hresult⟩ := h
  cases hresult
  exact ⟨paid, spent, hpaid, hspent, hnext, hsupply⟩

/-- The caps on an executed body. Only its first epoch is executed, and it has no other. -/
lemma caps_of_applyBlockWithVerifier
    (h : s.applyBlockWithVerifier body verifier = .ok s') : body.claims.length ≤ maxClaimsPerBlock ∧
      body.monetaryEpochs.length ≤ maxMonetaryEpochsPerBlock ∧
      ∀ epoch ∈ body.monetaryEpochs, ∃ bytes, epoch.toWireBytes = .ok bytes := by
  obtain ⟨paid, spent, -, -, hepoch, -⟩ := applyBlockWithVerifier_ok h
  obtain ⟨hclaims, h⟩ := failIf_bind_ok.mp h
  obtain ⟨hepochs, -⟩ := failIf_bind_ok.mp h
  refine ⟨not_lt.mp hclaims, not_lt.mp hepochs, fun epoch hmem => ?_⟩
  match hbody : body.monetaryEpochs with
  | [] => simp [hbody] at hmem
  | [only] =>
    rw [hbody] at hmem hepoch
    obtain rfl := List.mem_singleton.mp hmem
    obtain ⟨bytes, hbytes, -⟩ := bind_ok.mp hepoch
    exact ⟨bytes, mapError_ok.mp hbytes⟩
  | _ :: _ :: _ => simp [hbody, maxMonetaryEpochsPerBlock] at hepochs

omit [Primitives] in
lemma applyNullifiers_invariant {records : List NullifierRecord}
    (hgroup : ∀ verifier ∈ claimVerifier, ∀ s digest s', P s → GroupStep verifier s digest s' → P s')
    (hs : P s) (h : s.applyNullifiers records claimVerifier = .ok s') : P s' := by
  unfold applyNullifiers at h
  split at h
  next =>
    cases h
    exact hs
  next =>
    obtain ⟨verifier, hverifier, h⟩ := bind_ok.mp h
    obtain ⟨hwf, h⟩ := failIf_bind_ok.mp h
    refine foldlM_invariant (fun s digest _ t hs ht => ?_) hs h
    refine hgroup verifier (okOr_ok.mp hverifier) s digest t hs (groupStep_of_applyGroup ?_ ht)
    exact fun r hr => not_not.mp fun hbad => hwf ⟨r, hr, hbad⟩

/-- What every step keeps, a block keeps. -/
lemma applyBlock_invariant (hclaim : ∀ s c s', P s → ClaimStep s c s' → P s')
    (hgroup : ∀ verifier ∈ claimVerifier, ∀ s digest s', P s → GroupStep verifier s digest s' → P s')
    (hepoch : ∀ s epoch s', P s → applyMonetaryEpoch s epoch = .ok s' → P s') (hs : P s)
    (h : s.applyBlockWithVerifier body claimVerifier = .ok s') : P s' := by
  obtain ⟨paid, spent, hpaid, hspent, hnext, -⟩ := applyBlockWithVerifier_ok h
  have hP : P paid := foldlM_invariant
    (fun s c _ t hs ht => hclaim s c t hs (claimStep_of_applyOneClaim ht)) hs hpaid
  exact hepoch _ _ _ (applyNullifiers_invariant hgroup hP hspent) hnext

/-- A state at genesis. -/
inductive Genesis : LedgerState → Prop
  | supply (networkId : Hash) (genesisCirculating : Amount) :
      Genesis (withNetworkAndGenesisSupply networkId genesisCirculating)
  | balances {networkId : Hash} {genesisCirculating : Amount} {allocations : List (Bytes × Amount)}
      {s : LedgerState}
      (h : withNetworkAndGenesisBalances networkId genesisCirculating allocations = .ok s) :
      Genesis s
  | shielded {networkId : Hash} {allocations : List ShieldedGenesisAllocation}
      {verifier : ClaimVerifier} {s : LedgerState}
      (h : withShieldedGenesis networkId allocations verifier = .ok s) : Genesis s

/-- A sequence of blocks, each applied with a verifier of its own, takes one state to another. -/
inductive Runs : LedgerState → List (SettlementBlockBody × Option ClaimVerifier) → LedgerState → Prop
  | nil (s : LedgerState) : Runs s [] s
  | cons {s mid s' : LedgerState} {body : SettlementBlockBody} {verifier : Option ClaimVerifier}
      {blocks : List (SettlementBlockBody × Option ClaimVerifier)}
      (h : s.applyBlockWithVerifier body verifier = .ok mid) (hrest : Runs mid blocks s') :
      Runs s ((body, verifier) :: blocks) s'

/-- A state that blocks lead to from a genesis. -/
def Reachable (s : LedgerState) : Prop := ∃ g blocks, Genesis g ∧ Runs g blocks s

/-- What every block keeps, a run keeps. -/
lemma Runs.invariant
    (hstep : ∀ s body verifier s', P s → s.applyBlockWithVerifier body verifier = .ok s' → P s')
    (h : Runs s blocks s') (hs : P s) : P s' := by
  induction h with
  | nil => exact hs
  | cons happly _ ih => exact ih (hstep _ _ _ _ hs happly)

/-- What every block of a run keeps, the run keeps. -/
lemma Runs.invariant_of_mem (h : Runs s blocks s')
    (hstep : ∀ block ∈ blocks, ∀ s s', P s → s.applyBlockWithVerifier block.1 block.2 = .ok s' → P s')
    (hs : P s) : P s' := by
  induction h with
  | nil => exact hs
  | cons happly _ ih =>
    refine ih (fun block hblock => hstep block (by simp [hblock])) ?_
    exact hstep _ List.mem_cons_self _ _ hs happly

end

end LedgerState

/-! ### A sample run -/

/-- A 32-byte account. -/
def sampleAccount (n : UInt8) : Bytes := List.replicate 32 n

def samplePayment (payer payee : UInt8) (amount sequence : UInt64) : PaymentClaim where
  networkId := mininetNetworkId
  payer := sampleAccount payer
  payee := sampleAccount payee
  amountMicro := amount
  sequence := sequence
  validUntilMs := 0
  lastKnownChain := []
  signature := .filled 0

namespace LedgerState

/-- A genesis that funds the first account. -/
def sampleFunded : LedgerState :=
  { withGenesisSupply 1000 with
    balances := (∅ : ExtTreeMap Bytes Amount compare).insert (sampleAccount 1) 1000
    allocatedCirculating := 1000
    unallocatedCirculating := 0 }

lemma genesis_sampleFunded : @Genesis .sample sampleFunded :=
  @Genesis.balances .sample mininetNetworkId 1000 [(sampleAccount 1, 1000)] sampleFunded
    (by decide +kernel)

/-- The state after the first account paid the second. -/
def samplePaid : LedgerState :=
  { sampleFunded with
    finalized := (∅ : ExtTreeMap Bytes (UInt64 × Hash) compare).insert (sampleAccount 1)
      (1, @PaymentClaim.claimDigest .sample (samplePayment 1 2 250 1))
    balances := ((∅ : ExtTreeMap Bytes Amount compare).insert (sampleAccount 1) 750).insert
      (sampleAccount 2) 250 }

lemma runs_samplePaid :
    @Runs .sample sampleFunded [({ claims := [samplePayment 1 2 250 1] }, none)] samplePaid :=
  @Runs.cons .sample _ _ _ _ _ _ (by decide +kernel) (@Runs.nil .sample _)

lemma reachable_samplePaid : @Reachable .sample samplePaid :=
  ⟨sampleFunded, _, genesis_sampleFunded, runs_samplePaid⟩

end LedgerState

end Mininet

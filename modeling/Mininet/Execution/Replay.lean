import Mininet.Execution.Chain
import Mininet.Execution.Snapshot

/-!
# Restoring a checkpoint

A restored chain starts from a decoded state and replays its shielded claims from genesis. The
replay sees less than execution did: the order of the claims and the spent key images, and not the
bodies, with their repeated and their conflicting groups. `Replays` is the invariant that makes it
come out the same.
-/

namespace Mininet

open Codec Fallible TreeMaps List
open Std (ExtTreeMap LawfulEqCmp)

/-- A verifier whose answer depends on the set of records, and which accepts a claim with one set of
key images only. -/
structure ClaimVerifier.Canonical (verifier : ClaimVerifier) : Prop where
  set : ∀ network digest group group', (∀ r, r ∈ group ↔ r ∈ group') →
    verifier.verifyClaim network digest group = verifier.verifyClaim network digest group'
  images : ∀ network digest group group', (verifier.verifyClaim network digest group).isSome →
    (verifier.verifyClaim network digest group').isSome →
    ∀ image, (∃ r ∈ group, r.keyImage = image) ↔ ∃ r ∈ group', r.keyImage = image

namespace ShieldedLedger

/-! ### Genesis -/

instance : Std.TransCmp ShieldedOutput.cmp := by
  unfold ShieldedOutput.cmp
  infer_instance

variable {nullifiers : ExtTreeMap Bytes Hash compare} {verifier : ClaimVerifier} {network : Hash}

lemma pairwise_sortAllocations (allocations : List ShieldedGenesisAllocation) :
    (sortAllocations allocations).Pairwise fun a b => (a.output.cmp b.output).isLE := by
  have htotal : Std.Total fun a b : ShieldedGenesisAllocation => (a.output.cmp b.output).isLE := by
    refine ⟨fun a b => ?_⟩
    have hswap : b.output.cmp a.output = (a.output.cmp b.output).swap := Std.OrientedCmp.eq_swap
    rw [hswap]
    cases a.output.cmp b.output <;> simp
  have htrans : IsTrans ShieldedGenesisAllocation fun a b => (a.output.cmp b.output).isLE :=
    ⟨fun _ _ _ hab hbc => Std.TransCmp.isLE_trans hab hbc⟩
  exact pairwise_insertionSort _ _

/-- A sorted genesis is kept as it is. -/
lemma sortAllocations_sortAllocations (allocations : List ShieldedGenesisAllocation) :
    sortAllocations (sortAllocations allocations) = sortAllocations allocations :=
  (pairwise_sortAllocations allocations).insertionSort_eq

/-- The ledger at genesis records the genesis it is rebuilt from. -/
lemma fromGenesis_genesis {allocations : List ShieldedGenesisAllocation} {l : ShieldedLedger}
    (h : fromGenesis network allocations verifier = .ok l) :
    fromGenesis network l.genesis verifier = .ok l ∧ l.applied = [] := by
  obtain ⟨hlen, h⟩ := failIf_bind_ok.mp h
  obtain ⟨ledger, hfund, hresult⟩ := bind_ok.mp h
  have happlied := (foldlM_fund_ok hfund).2.2.2.2
  cases hresult
  refine ⟨?_, happlied⟩
  unfold fromGenesis
  rw [sortAllocations_sortAllocations, failIf_bind_ok, hfund]
  refine ⟨?_, rfl⟩
  rwa [sortAllocations, length_insertionSort]

lemma fromGenesis_nil (network : Hash) (verifier : ClaimVerifier) :
    fromGenesis network [] verifier = .ok empty := rfl

/-! ### Replaying claims -/

/-- The records of one claim among the spent key images. -/
def groupOf (nullifiers : ExtTreeMap Bytes Hash compare) (digest : Hash) : List NullifierRecord :=
  (spentRecords nullifiers).filter fun r => r.claimDigest = digest

lemma mem_groupOf {digest : Hash} {r : NullifierRecord} :
    r ∈ groupOf nullifiers digest ↔ r.claimDigest = digest ∧ nullifiers[r.keyImage]? = some digest := by
  obtain ⟨image, d⟩ := r
  simp only [groupOf, spentRecords, mem_filter, mem_map, NullifierRecord.mk.injEq,
    decide_eq_true_eq, Prod.exists, mem_toList]
  constructor
  · rintro ⟨⟨k, d', hk, rfl, rfl⟩, rfl⟩
    exact ⟨rfl, hk⟩
  · rintro ⟨rfl, hk⟩
    exact ⟨⟨image, d, hk, rfl, rfl⟩, rfl⟩

/-- Apply a claim again, with the records the spent key images give it. -/
def reapply (verifier : ClaimVerifier) (network : Hash) (nullifiers : ExtTreeMap Bytes Hash compare)
    (l : ShieldedLedger) (digest : Hash) : Except ExecutionError ShieldedLedger := do
  let effects ← okOr (verifier.verifyClaim network digest (groupOf nullifiers digest))
    .invalidShieldedClaim
  let (replay, _) ← l.apply digest effects
  return replay

/-- The replay of distinct claims, each with a group, consumes exactly their groups. -/
lemma foldlM_replayClaim {digests : List Hash}
    (hnodup : digests.Nodup) {groups : ExtTreeMap Hash (List NullifierRecord) compare}
    {base l : ShieldedLedger} (hgroups : ∀ d ∈ digests, groups[d]? = some (groupOf nullifiers d))
    (h : digests.foldlM (reapply verifier network nullifiers) base = .ok l) :
    ∃ left : ExtTreeMap Hash (List NullifierRecord) compare,
      digests.foldlM (replayClaim verifier network) (groups, base) = .ok (left, l) ∧
      ∀ d : Hash, left[d]? = if d ∈ digests then none else groups[d]? := by
  induction digests generalizing groups base with
  | nil =>
    cases h
    exact ⟨groups, rfl, fun d => by simp⟩
  | cons digest digests ih =>
    obtain ⟨hnotin, hnodup⟩ := nodup_cons.mp hnodup
    rw [foldlM_cons] at h
    obtain ⟨mid, hmid, hrest⟩ := bind_ok.mp h
    obtain ⟨effects, heffects, hmid⟩ := bind_ok.mp hmid
    obtain ⟨⟨replay, fee⟩, happly, hresult⟩ := bind_ok.mp hmid
    cases hresult
    have hstep : replayClaim verifier network (groups, base) digest =
        .ok (groups.erase digest, mid) := by
      refine bind_ok.mpr ⟨_, okOr_ok.mpr (hgroups digest (by simp)), ?_⟩
      exact bind_ok.mpr ⟨_, heffects, bind_ok.mpr ⟨_, happly, rfl⟩⟩
    have herase : ∀ d ∈ digests, (groups.erase digest)[d]? = some (groupOf nullifiers d) := by
      intro d hd
      have hne : digest ≠ d := fun heq => hnotin (heq ▸ hd)
      rw [ExtTreeMap.getElem?_erase, if_neg (by simpa using hne)]
      exact hgroups d (by simp [hd])
    obtain ⟨left, hleft, hlookup⟩ := ih hnodup herase hrest
    refine ⟨left, ?_, fun d => ?_⟩
    · rw [foldlM_cons, hstep]
      exact hleft
    · rw [hlookup d, ExtTreeMap.getElem?_erase]
      by_cases hd : digest = d
      · simp [hd]
      · simp [hd, Ne.symm hd]

end ShieldedLedger

namespace LedgerState

open ShieldedLedger

/-! ### The invariant -/

/-- The state's shielded ledger is what its claims, in the order they were applied and with the
records the spent key images give them, make of the genesis; and the spent key images are those of
applied claims. -/
structure Replays (verifier : ClaimVerifier) (network : Hash)
    (genesis : List ShieldedGenesisAllocation) (s : LedgerState) : Prop where
  network_eq : s.networkId = network
  genesis_eq : s.shielded.genesis = genesis
  ledger : ∃ base, fromGenesis network genesis verifier = .ok base ∧
    s.shielded.applied.foldlM (reapply verifier network s.nullifiers) base = .ok s.shielded
  spent : ∀ (k : Bytes) (d : Hash), s.nullifiers[k]? = some d → d ∈ s.shielded.applied
  taken : ∀ d ∈ s.shielded.applied, ∃ k : Bytes, s.nullifiers[k]? = some d

/-- Claims and epochs leave alone what is replayed. -/
structure SameShielded (s s' : LedgerState) : Prop where
  networkId : s'.networkId = s.networkId
  nullifiers : s'.nullifiers = s.nullifiers
  shielded : s'.shielded = s.shielded

variable {verifier : ClaimVerifier} {network : Hash} {genesis : List ShieldedGenesisAllocation}

variable {s s' : LedgerState} {c : PaymentClaim}

lemma Replays.congr (hs : s.Replays verifier network genesis) (h : s.SameShielded s') :
    s'.Replays verifier network genesis := by
  obtain ⟨hnetwork, hnullifiers, hshielded⟩ := h
  constructor
  case network_eq => rw [hnetwork, hs.network_eq]
  case genesis_eq => rw [hshielded, hs.genesis_eq]
  case ledger => rw [hshielded, hnullifiers]; exact hs.ledger
  case spent => rw [hshielded, hnullifiers]; exact hs.spent
  case taken => rw [hshielded, hnullifiers]; exact hs.taken

lemma sameShielded_transfer (h : s.transfer c = .ok s') : s.SameShielded s' := by
  obtain ⟨-, rfl⟩ | ⟨-, _, _, -, -, rfl⟩ := transfer_ok h <;> exact ⟨rfl, rfl, rfl⟩

lemma sameShielded_claimStep [Primitives] (h : ClaimStep s c s') : s.SameShielded s' := by
  cases h with
  | dropped | rejected => exact ⟨rfl, rfl, rfl⟩
  | executed _ _ hpaid =>
    obtain ⟨hnetwork, hnullifiers, hshielded⟩ := sameShielded_transfer hpaid
    exact ⟨hnetwork, hnullifiers, hshielded⟩

lemma sameShielded_applyMonetaryEpoch {epoch : Option ScalableEpochPlan}
    (h : s.applyMonetaryEpoch epoch = .ok s') : s.SameShielded s' := by
  obtain rfl | ⟨_, _, _, _, _, _, _, _, rfl⟩ := applyMonetaryEpoch_ok h <;>
    exact ⟨rfl, rfl, rfl⟩

/-! ### A group is taken -/

section Group

variable {s : LedgerState} {digest : Hash} {group : List NullifierRecord}
  {effects : ShieldedClaimEffects}

/-- An applied claim was accepted with the records the spent key images give it. -/
lemma Replays.accepted (hs : s.Replays verifier network genesis) (h : digest ∈ s.shielded.applied) :
    (verifier.verifyClaim network digest (groupOf s.nullifiers digest)).isSome := by
  obtain ⟨base, -, hfold⟩ := hs.ledger
  obtain ⟨l, l', hstep⟩ := exists_of_foldlM_ok hfold h
  obtain ⟨effects, heffects, -⟩ := bind_ok.mp hstep
  rw [okOr_ok.mp heffects]
  rfl

/-- A claim that comes again spends the key images it spent before. -/
lemma Replays.insertAll_of_mem (hv : verifier.Canonical) (hs : s.Replays verifier network genesis)
    (hverify : verifier.verifyClaim network digest group = some effects)
    (h : digest ∈ s.shielded.applied) :
    insertAll s.nullifiers (group.map fun r => (r.keyImage, digest)) = s.nullifiers := by
  refine insertAll_eq_self fun e he => ?_
  obtain ⟨r, hr, rfl⟩ := mem_map.mp he
  have himages := hv.images network digest group _ (by simp [hverify]) (hs.accepted h) r.keyImage
  obtain ⟨r', hr', himage⟩ := himages.mp ⟨r, hr, rfl⟩
  rw [← himage]
  exact (mem_groupOf.mp hr').2

/-- A new claim takes key images that were all free. -/
lemma Replays.free_of_notMem (hs : s.Replays verifier network genesis)
    (htake : s.takeable digest group) (h : digest ∉ s.shielded.applied) {r : NullifierRecord}
    (hr : r ∈ group) : s.nullifiers[r.keyImage]? = none := by
  have hfree := all_eq_true.mp htake r hr
  cases hheld : s.nullifiers[r.keyImage]? with
  | none => rfl
  | some held =>
    simp only [hheld, decide_eq_true_eq] at hfree
    exact absurd (hs.spent _ _ hheld) (hfree ▸ h)

/-- The records of a claim after a new one has taken its key images. -/
lemma mem_groupOf_insertAll (hgroup : ∀ r ∈ group, r.claimDigest = digest)
    (hfree : ∀ r ∈ group, s.nullifiers[r.keyImage]? = none)
    (hnone : ∀ k : Bytes, s.nullifiers[k]? ≠ some digest) (d : Hash) (r : NullifierRecord) :
    r ∈ groupOf (insertAll s.nullifiers (group.map fun r => (r.keyImage, digest))) d ↔
      if d = digest then r ∈ group else r ∈ groupOf s.nullifiers d := by
  have hmap : (group.map fun r => (r.keyImage, digest)) =
      (group.map NullifierRecord.keyImage).map fun k => (k, digest) := by simp
  rw [mem_groupOf, hmap, getElem?_insertAll_map _ _ (fun _ => digest)]
  split_ifs with hmem hd hd
  · -- a key image the claim took, and the claim itself
    subst hd
    obtain ⟨r', hr', himage⟩ := mem_map.mp hmem
    constructor
    · rintro ⟨hdigest, -⟩
      have heq : r' = r := by
        rw [NullifierRecord.ext_iff]
        exact ⟨himage, (hgroup r' hr').trans hdigest.symm⟩
      exact heq ▸ hr'
    · exact fun hr => ⟨hgroup r hr, rfl⟩
  · obtain ⟨r', hr', himage⟩ := mem_map.mp hmem
    have hnotin : r ∉ groupOf s.nullifiers d := fun hr => by
      rw [mem_groupOf, ← himage, hfree r' hr'] at hr
      exact absurd hr.2 (by simp)
    simp [hnotin, Ne.symm hd]
  · subst hd
    constructor
    · exact fun hr => absurd hr.2 (hnone _)
    · exact fun hr => absurd (mem_map_of_mem hr) hmem
  · rw [mem_groupOf]

end Group

lemma Replays.groupStep {digest : Hash} (hv : verifier.Canonical)
    (hs : s.Replays verifier network genesis) (h : GroupStep verifier s digest s') :
    s'.Replays verifier network genesis := by
  cases h with
  | skipped => exact hs
  | @taken group effects shielded fee unallocated hne hgroup hverify htake happly hfee =>
    rw [hs.network_eq] at hverify
    rcases apply_ok happly with ⟨hmem, rfl, -⟩ | ⟨hnew, -, -, -, -, -, pool, -, rfl⟩
    · exact hs.congr ⟨rfl, hs.insertAll_of_mem hv hverify hmem, rfl⟩
    · have hfree := fun r hr => hs.free_of_notMem htake hnew (r := r) hr
      have hnone : ∀ k : Bytes, s.nullifiers[k]? ≠ some digest :=
        fun k hk => hnew (hs.spent k digest hk)
      have hgroups := mem_groupOf_insertAll (fun r hr => (hgroup r hr).2) hfree hnone
      have hsame : ∀ d ∈ s.shielded.applied, ∀ l,
          reapply verifier network (insertAll s.nullifiers
            (group.map fun r => (r.keyImage, digest))) l d =
          reapply verifier network s.nullifiers l d := by
        intro d hd l
        have hd : d ≠ digest := fun heq => hnew (heq ▸ hd)
        unfold reapply
        rw [hv.set network d _ (groupOf s.nullifiers d) fun r => by simp [hgroups, hd]]
      constructor
      case network_eq => exact hs.network_eq
      case genesis_eq => exact hs.genesis_eq
      case ledger =>
        obtain ⟨base, hbase, hfold⟩ := hs.ledger
        refine ⟨base, hbase, ?_⟩
        rw [foldlM_append, foldlM_congr hsame, hfold]
        have hlast : verifier.verifyClaim network digest (groupOf (insertAll s.nullifiers
            (group.map fun r => (r.keyImage, digest))) digest) = some effects := by
          rw [hv.set network digest _ group fun r => by simp [hgroups], hverify]
        refine bind_ok.mpr ⟨s.shielded, rfl, ?_⟩
        rw [foldlM_cons]
        refine bind_ok.mpr ⟨_, bind_ok.mpr ⟨effects, okOr_ok.mpr hlast, ?_⟩, rfl⟩
        exact bind_ok.mpr ⟨_, happly, rfl⟩
      case spent =>
        intro k d hk
        rcases mem_of_getElem?_insertAll hk with hk | hk
        · exact mem_append_left _ (hs.spent k d hk)
        · obtain ⟨r, -, heq⟩ := mem_map.mp hk
          cases heq
          simp
      case taken =>
        intro d hd
        by_cases heq : d = digest
        · obtain ⟨r, hr⟩ := exists_mem_of_ne_nil _ hne
          exact ⟨r.keyImage, (mem_groupOf.mp ((hgroups d r).mpr (by simp [heq, hr]))).2⟩
        · have hd : d ∈ s.shielded.applied := by simpa [heq] using hd
          obtain ⟨k, hk⟩ := hs.taken d hd
          have hr : (⟨k, d⟩ : NullifierRecord) ∈ groupOf s.nullifiers d :=
            mem_groupOf.mpr ⟨rfl, hk⟩
          exact ⟨k, (mem_groupOf.mp ((hgroups d ⟨k, d⟩).mpr (by simp [heq, hr]))).2⟩

lemma Replays.applyBlock [Primitives] {body : SettlementBlockBody} (hv : verifier.Canonical)
    (hs : s.Replays verifier network genesis)
    (h : s.applyBlockWithVerifier body (some verifier) = .ok s') :
    s'.Replays verifier network genesis := by
  refine applyBlock_invariant (fun _ _ _ hs h => hs.congr (sameShielded_claimStep h)) ?_
    (fun _ _ _ hs h => hs.congr (sameShielded_applyMonetaryEpoch h)) hs h
  rintro _ ⟨⟩ t digest t' ht hstep
  exact ht.groupStep hv hstep

/-! ### The replay succeeds -/

lemma Replays.verifyShieldedClaims (hs : s.Replays verifier network genesis)
    (hnodup : s.shielded.applied.Nodup) : s.verifyShieldedClaims (some verifier) = .ok () := by
  obtain ⟨base, hbase, hfold⟩ := hs.ledger
  have hgroups : ∀ d ∈ s.shielded.applied,
      (recordGroups (spentRecords s.nullifiers))[d]? = some (groupOf s.nullifiers d) := by
    intro d hd
    obtain ⟨k, hk⟩ := hs.taken d hd
    have hmem : (⟨k, d⟩ : NullifierRecord) ∈ groupOf s.nullifiers d := mem_groupOf.mpr ⟨rfl, hk⟩
    rw [getElem?_recordGroups, ← groupOf, if_neg (ne_nil_of_mem hmem)]
  obtain ⟨left, hleft, hlookup⟩ := foldlM_replayClaim hnodup hgroups hfold
  -- a group that is left would belong to a claim that was not applied
  have hempty : left = ∅ := by
    refine ExtTreeMap.ext_getElem? fun d => ?_
    rw [hlookup d, getElem?_recordGroups, ← groupOf]
    split_ifs with hd hnil
    · simp
    · simp
    · obtain ⟨r, hr⟩ := exists_mem_of_ne_nil _ hnil
      exact absurd (hs.spent _ _ (mem_groupOf.mp hr).2) hd
  unfold LedgerState.verifyShieldedClaims verifyReplay
  split_ifs
  · rfl
  · rw [hs.network_eq, hs.genesis_eq]
    refine bind_ok.mpr ⟨verifier, rfl, bind_ok.mpr ⟨base, hbase, ?_⟩⟩
    refine bind_ok.mpr ⟨(left, s.shielded), hleft, failIf_ok.mpr ?_⟩
    simp [hempty]

end LedgerState

namespace LedgerChain

open ShieldedLedger

section

variable [Primitives] {Kel : Type} [KelOps Kel]

variable {claimVerifier : Option ClaimVerifier} {deliveries : List (Delivery Kel)}
  {start tip : LedgerChain} {chain : LedgerChain}

lemma Genesis.replays {verifier : ClaimVerifier} (h : Genesis verifier chain) :
    chain.state.Replays verifier chain.state.networkId chain.state.shielded.genesis := by
  cases h with
  | supply networkId genesisCirculating =>
    exact ⟨rfl, rfl, ⟨empty, fromGenesis_nil _ _, rfl⟩, fun _ _ hk => absurd hk (by simp [
      genesisForNetwork, atGenesis, LedgerState.withNetworkAndGenesisSupply]), fun _ hd => by cases hd⟩
  | balances h =>
    obtain ⟨state, hstate, hresult⟩ := bind_ok.mp h
    obtain ⟨_, -, hstate⟩ := bind_ok.mp hstate
    obtain ⟨-, hstate⟩ := failIf_bind_ok.mp hstate
    cases hresult
    cases hstate
    exact ⟨rfl, rfl, ⟨empty, fromGenesis_nil _ _, rfl⟩, fun _ _ hk => absurd hk (by simp [
      atGenesis, LedgerState.withNetworkAndGenesisSupply]), fun _ hd => by cases hd⟩
  | shielded h =>
    obtain ⟨state, hstate, hresult⟩ := bind_ok.mp h
    obtain ⟨ledger, hledger, hstate⟩ := bind_ok.mp hstate
    obtain ⟨_, -, hstate⟩ := bind_ok.mp hstate
    obtain ⟨hgenesis, happlied⟩ := fromGenesis_genesis hledger
    cases hresult
    cases hstate
    constructor
    case network_eq => rfl
    case genesis_eq => rfl
    case ledger => exact ⟨ledger, hgenesis, by simp [atGenesis, happlied, pure, Except.pure]⟩
    case spent => simp [atGenesis, LedgerState.withNetworkAndGenesisSupply]
    case taken => simp [atGenesis, happlied]

/-- The last block of a run led to its end. -/
lemma Runs.last {d : Delivery Kel} (h : Runs claimVerifier start (deliveries ++ [d]) tip) :
    ∃ (chain : LedgerChain) (commitment : Hash),
      chain.deliver d claimVerifier = .ok (tip, commitment) := by
  generalize hlist : deliveries ++ [d] = list at h
  cases h with
  | nil => simp at hlist
  | @snoc _ chain _ d' commitment _ happly =>
    obtain ⟨-, hd⟩ := append_inj' hlist rfl
    cases hd
    exact ⟨chain, commitment, happly⟩

/-- A chain is never restored at height zero. -/
lemma height_ne_zero_of_restored {header : BlockHeader} {state : LedgerState}
    {qc : QuorumCertificate} {validators : ValidatorSet} {oracle : ValidatorOracle Kel}
    {networkId shieldedGenesis : Hash}
    (h : fromFinalizedSnapshotWithVerifier header state qc validators oracle networkId
      shieldedGenesis claimVerifier = .ok chain) :
    header.height ≠ 0 := by
  simp only [fromFinalizedSnapshotWithVerifier, ↓failIf_bind_ok, bind_ok] at h
  obtain ⟨-, -, -, -, -, -, -, -, -, -, -, hproof, -⟩ := h
  exact (not_or.mp hproof).1

/-- The tip is at height zero when the number of blocks is a multiple of the height's range. -/
lemma Runs.height_eq_zero_iff
    (h : Runs claimVerifier start deliveries tip) (hstart : start.height = 0) :
    tip.height = 0 ↔ 2 ^ 64 ∣ deliveries.length := by
  rw [h.height_eq, hstart, UInt64.zero_add, ← UInt64.toNat_inj, UInt64.toNat_ofNat',
    Nat.dvd_iff_mod_eq_zero]
  rfl

end

/-! ### A shielded spend -/

def sampleAllocation : ShieldedGenesisAllocation where
  output := ⟨sampleAccount 1, sampleAccount 2⟩
  amountMicro := 100

def sampleSpend : NullifierRecord where
  keyImage := sampleAccount 3
  claimDigest := Vector.replicate 32 4

/-- A verifier that knows one claim, which spends one key image. -/
def sampleVerifier : ClaimVerifier where
  verifyClaim _ digest group :=
    if digest = sampleSpend.claimDigest ∧ group ≠ [] ∧ ∀ r ∈ group, r = sampleSpend then
      some {
        ringMembers := [sampleAllocation.output]
        outputs := [⟨sampleAccount 5, sampleAccount 6⟩]
        feeMicro := 7 }
    else none
  verifyGenesisAllocation _ _ := true

lemma canonical_sampleVerifier : sampleVerifier.Canonical where
  set network digest group group' h := by
    have hnil : group = [] ↔ group' = [] := by
      simp only [eq_nil_iff_forall_not_mem, h]
    simp only [sampleVerifier, h, ne_eq, hnil]
  images network digest group group' h h' image := by
    simp only [sampleVerifier, Option.isSome_ite] at h h'
    have hsole : ∀ g : List NullifierRecord, g ≠ [] → (∀ r ∈ g, r = sampleSpend) →
        ((∃ r ∈ g, r.keyImage = image) ↔ sampleSpend.keyImage = image) := by
      intro g hne hall
      obtain ⟨r, hr⟩ := exists_mem_of_ne_nil g hne
      exact ⟨fun ⟨r, hr, himage⟩ => hall r hr ▸ himage, fun himage => ⟨r, hr, hall r hr ▸ himage⟩⟩
    rw [hsole group h.2.1 h.2.2, hsole group' h'.2.1 h'.2.2]

/-! ### The height wraps -/

section

variable [Primitives]

/-- Empty blocks extend an empty ledger for as long as one likes. -/
lemma exists_runs_empty (claimVerifier : Option ClaimVerifier) (n : ℕ) :
    ∃ (deliveries : List (Delivery SampleKel)) (tip : LedgerChain), deliveries.length = n ∧
      Runs claimVerifier LedgerChain.genesis deliveries tip ∧ tip.state = .new := by
  induction n with
  | zero => exact ⟨[], _, rfl, .nil, rfl⟩
  | succ n ih =>
    obtain ⟨deliveries, tip, rfl, hruns, hstate⟩ := ih
    have happly : tip.state.applyBlockWithVerifier {} claimVerifier = .ok .new := by
      rw [hstate]
      rfl
    exact ⟨_, _, by simp, hruns.snoc (deliver_sampleBlock (Nat.zero_le _) rfl happly), rfl⟩

end

end LedgerChain

end Mininet

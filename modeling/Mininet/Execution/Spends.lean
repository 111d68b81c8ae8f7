import Mininet.Execution.Replay

/-!
# Shielded spends over a run

A claim takes all of its key images or none of them, and it takes them once. Bodies may carry the
records of a claim in any order, repeat them, mix them with those of other claims, and deliver them
again blocks later; none of it shows in the state, where the spent key images are exactly those of
the claims applied.
-/

namespace Mininet

open Codec Fallible TreeMaps List
open Std (ExtTreeMap LawfulEqCmp)

/-- A verifier that accepts a claim with exactly the claim's own key images. -/
def ClaimVerifier.Owns (verifier : ClaimVerifier) (network : Hash) (images : Hash → Set Bytes) :
    Prop :=
  ∀ digest group effects, verifier.verifyClaim network digest group = some effects →
    ∀ image, (∃ r ∈ group, r.keyImage = image) ↔ image ∈ images digest

/-- The rows a claim's outputs become. -/
def ShieldedClaimEffects.rows (effects : ShieldedClaimEffects) : List (Bytes × Bytes) :=
  effects.outputs.map fun o => (o.publicKey, o.amountCommitment)

namespace LedgerState

variable {images : Hash → Set Bytes}

/-! ### What is spent stays spent -/

/-- The later state has the applied claims and the spent key images of the earlier one. -/
structure Grows (s s' : LedgerState) : Prop where
  networkId : s'.networkId = s.networkId
  applied : s.shielded.applied ⊆ s'.shielded.applied
  nullifiers : ∀ (k : Bytes) (d : Hash), s.nullifiers[k]? = some d → s'.nullifiers[k]? = some d

variable {s s' : LedgerState} {digest : Hash} {records : List NullifierRecord}
  {body : SettlementBlockBody} {verifier : Option ClaimVerifier}

lemma Grows.refl (s : LedgerState) : s.Grows s := ⟨rfl, fun _ h => h, fun _ _ h => h⟩

lemma Grows.trans {t u : LedgerState} (hst : s.Grows t) (htu : t.Grows u) : s.Grows u where
  networkId := htu.networkId.trans hst.networkId
  applied := fun _ hd => htu.applied (hst.applied hd)
  nullifiers k d hk := htu.nullifiers k d (hst.nullifiers k d hk)

lemma SameShielded.grows (h : s.SameShielded s') : s.Grows s' where
  networkId := h.networkId
  applied := by rw [h.shielded]; exact fun _ hd => hd
  nullifiers k d hk := by rw [h.nullifiers]; exact hk

lemma getElem?_nullifiers_taken (s : LedgerState) (digest : Hash) (group : List NullifierRecord)
    (k : Bytes) :
    (insertAll s.nullifiers (group.map fun r => (r.keyImage, digest)))[k]? =
      if k ∈ group.map NullifierRecord.keyImage then some digest else s.nullifiers[k]? := by
  have hmap : (group.map fun r => (r.keyImage, digest)) =
      (group.map NullifierRecord.keyImage).map fun k => (k, digest) := by simp
  rw [hmap, getElem?_insertAll_map _ _ (fun _ => digest)]
  split_ifs <;> rfl

/-- A key image that a takeable claim wants and that is held is held by the claim itself. -/
lemma eq_of_takeable {d : Hash} {group : List NullifierRecord} {k : Bytes}
    (h : s.takeable digest group) (hk : k ∈ group.map NullifierRecord.keyImage)
    (hheld : s.nullifiers[k]? = some d) : d = digest := by
  obtain ⟨r, hr, rfl⟩ := mem_map.mp hk
  have hfree := all_eq_true.mp h r hr
  simpa [hheld] using hfree

lemma GroupStep.grows {verifier : ClaimVerifier} (h : GroupStep verifier s digest s') :
    s.Grows s' := by
  cases h with
  | skipped => exact .refl s
  | @taken group effects shielded fee unallocated hne hgroup hverify htake happly hfee =>
    refine ⟨rfl, ?_, fun k d hk => ?_⟩
    · obtain ⟨-, rfl, -⟩ | ⟨-, -, -, -, -, -, pool, -, rfl⟩ := ShieldedLedger.apply_ok happly
      · exact fun _ hd => hd
      · exact subset_append_left _ _
    · simp only [getElem?_nullifiers_taken]
      split_ifs with hmem
      · rw [eq_of_takeable htake hmem hk]
      · exact hk

section

variable [Primitives]

lemma grows_of_applyBlock (h : s.applyBlockWithVerifier body verifier = .ok s') : s.Grows s' :=
  applyBlock_invariant (P := s.Grows)
    (fun _ _ _ hs h => hs.trans (sameShielded_claimStep h).grows)
    (fun _ _ _ _ _ hs h => hs.trans h.grows)
    (fun _ _ _ hs h => hs.trans (sameShielded_applyMonetaryEpoch h).grows) (.refl s) h

lemma Runs.grows {blocks : List (SettlementBlockBody × Option ClaimVerifier)}
    (h : Runs s blocks s') : s.Grows s' :=
  h.invariant (P := s.Grows) (fun _ _ _ _ hs h => hs.trans (grows_of_applyBlock h)) (.refl s)

end

/-! ### Taken or in conflict -/

/-- A claim's fate is known: it is applied, or another claim holds one of its key images. -/
def Settled (images : Hash → Set Bytes) (digest : Hash) (s : LedgerState) : Prop :=
  digest ∈ s.shielded.applied ∨
    ∃ k ∈ images digest, ∃ d, s.nullifiers[k]? = some d ∧ d ≠ digest

lemma Settled.grows (h : Settled images digest s) (hgrows : s.Grows s') :
    Settled images digest s' := by
  rcases h with h | ⟨k, hk, d, hheld, hne⟩
  · exact .inl (hgrows.applied h)
  · exact .inr ⟨k, hk, d, hgrows.nullifiers k d hheld, hne⟩

lemma settled_of_applyGroup {verifier : ClaimVerifier} (hown : verifier.Owns s.networkId images)
    (hrecord : ∃ r ∈ records, r.claimDigest = digest)
    (h : applyGroup verifier (recordGroups records) s digest = .ok s') :
    Settled images digest s' := by
  unfold applyGroup at h
  split at h
  next hnone =>
    obtain ⟨r, hr, hdigest⟩ := hrecord
    rw [getElem?_recordGroups] at hnone
    split_ifs at hnone with hnil
    exact absurd hdigest (by simpa using filter_eq_nil_iff.mp hnil r hr)
  next group hgroup =>
    obtain ⟨effects, heffects, h⟩ := bind_ok.mp h
    have himages := hown digest group effects (okOr_ok.mp heffects)
    split at h
    next htake =>
      obtain ⟨⟨shielded, fee⟩, happly, h⟩ := bind_ok.mp h
      obtain ⟨unallocated, -, hresult⟩ := bind_ok.mp h
      cases hresult
      left
      obtain ⟨hmem, rfl, -⟩ | ⟨-, -, -, -, -, -, pool, -, rfl⟩ := ShieldedLedger.apply_ok happly
      · exact hmem
      · simp
    next htake =>
      cases h
      -- some key image is neither free nor the claim's own
      obtain ⟨r, hr, hheld⟩ : ∃ r ∈ group, ∃ d, s.nullifiers[r.keyImage]? = some d ∧ d ≠ digest := by
        by_contra hall
        refine htake (all_eq_true.mpr fun r hr => ?_)
        cases hheld : s.nullifiers[r.keyImage]? with
        | none => rfl
        | some d =>
          have hd : d = digest := not_not.mp fun hne => hall ⟨r, hr, d, hheld, hne⟩
          simpa using hd
      exact .inr ⟨r.keyImage, (himages _).mp ⟨r, hr, rfl⟩, hheld⟩

lemma mem_claimOrder : digest ∈ claimOrder records ↔ ∃ r ∈ records, r.claimDigest = digest := by
  induction records using List.reverseRecOn with
  | nil => simp [claimOrder]
  | append_singleton rs r ih =>
    have hstep : claimOrder (rs ++ [r]) = if r.claimDigest ∈ claimOrder rs then claimOrder rs
        else claimOrder rs ++ [r.claimDigest] := by
      rw [claimOrder, foldl_append]
      rfl
    have hlast : (∃ x ∈ rs ++ [r], x.claimDigest = digest) ↔
        digest ∈ claimOrder rs ∨ r.claimDigest = digest := by
      simp only [mem_append, mem_singleton, or_and_right, exists_or, exists_eq_left, ih]
    rw [hstep, hlast]
    split_ifs with hmem
    · exact ⟨.inl, fun h => h.elim id fun heq => heq ▸ hmem⟩
    · simp [eq_comm]

/-- After its records were applied, a claim's fate is known. -/
lemma settled_of_applyNullifiers (hown : ∀ v ∈ verifier, v.Owns s.networkId images)
    (h : s.applyNullifiers records verifier = .ok s') :
    ∀ r ∈ records, Settled images r.claimDigest s' := by
  unfold applyNullifiers at h
  split at h
  next hnil => simp [hnil]
  next =>
    obtain ⟨v, hv, h⟩ := bind_ok.mp h
    obtain ⟨hwf, h⟩ := failIf_bind_ok.mp h
    have hown := hown v (okOr_ok.mp hv)
    have hwf : ∀ r ∈ records, r.isWellFormed :=
      fun r hr => not_not.mp fun hbad => hwf ⟨r, hr, hbad⟩
    have hall := forall_of_foldlM (P := fun t => t.networkId = s.networkId)
      (Q := Settled images) (fun t digest hdigest t' ht hstep => ?_) rfl h
    · exact fun r hr => hall r.claimDigest (mem_claimOrder.mpr ⟨r, hr, rfl⟩)
    · have hgrows := (groupStep_of_applyGroup hwf hstep).grows
      refine ⟨hgrows.networkId.trans ht, ?_, fun _ hsettled => hsettled.grows hgrows⟩
      rw [← ht] at hown
      exact settled_of_applyGroup hown (mem_claimOrder.mp hdigest) hstep

section

variable [Primitives]

lemma settled_of_applyBlock (hown : ∀ v ∈ verifier, v.Owns s.networkId images)
    (h : s.applyBlockWithVerifier body verifier = .ok s') :
    ∀ r ∈ body.nullifiers, Settled images r.claimDigest s' := by
  obtain ⟨paid, spent, hpaid, hspent, hnext, -⟩ := applyBlockWithVerifier_ok h
  have hnetwork : paid.networkId = s.networkId := foldlM_invariant
    (P := fun t => t.networkId = s.networkId) (fun t c _ t' ht hstep =>
      (sameShielded_claimStep (claimStep_of_applyOneClaim hstep)).networkId.trans ht) rfl hpaid
  rw [← hnetwork] at hown
  intro r hr
  exact (settled_of_applyNullifiers hown hspent r hr).grows
    (sameShielded_applyMonetaryEpoch hnext).grows

/-- In a run the fate of every claim that was delivered is known. -/
lemma Runs.settled {blocks : List (SettlementBlockBody × Option ClaimVerifier)}
    (h : Runs s blocks s') (hown : ∀ block ∈ blocks, ∀ v ∈ block.2, v.Owns s.networkId images) :
    ∀ block ∈ blocks, ∀ r ∈ block.1.nullifiers, Settled images r.claimDigest s' := by
  induction h with
  | nil => simp
  | cons happly hrest ih =>
    intro block hblock r hr
    rcases mem_cons.mp hblock with rfl | hblock
    · exact (settled_of_applyBlock (hown _ mem_cons_self) happly r hr).grows hrest.grows
    · refine ih (fun block hblock => ?_) block hblock r hr
      rw [(grows_of_applyBlock happly).networkId]
      exact hown block (by simp [hblock])

end

/-! ### Applied once -/

/-- The claims of a history, each with the effects it was accepted with, are what the state has
spent since genesis: their key images are the ones held, their outputs the ones added, and their
fees what left the pool and joined the remainder. -/
structure Spent (images : Hash → Set Bytes) (accepted : Hash → ShieldedClaimEffects → Prop)
    (g s : LedgerState) (history : List (Hash × ShieldedClaimEffects)) : Prop where
  networkId : s.networkId = g.networkId
  applied : s.shielded.applied = history.map Prod.fst
  nodup : s.shielded.applied.Nodup
  accepted : ∀ e ∈ history, accepted e.1 e.2
  held : ∀ (k : Bytes) (d : Hash), s.nullifiers[k]? = some d ↔ d ∈ s.shielded.applied ∧ k ∈ images d
  outputs : s.shielded.outputs.toList.Perm
    (g.shielded.outputs.toList ++ history.flatMap fun e => e.2.rows)
  pool : g.shieldedPool.val = s.shieldedPool.val + (history.map fun e => e.2.feeMicro.toNat).sum
  remainder : s.unallocatedCirculating.val + g.monetary.circulating =
    g.unallocatedCirculating.val + (history.map fun e => e.2.feeMicro.toNat).sum +
      s.monetary.circulating

section Steps

variable {accepted : Hash → ShieldedClaimEffects → Prop} {g s s' : LedgerState}
  {history : List (Hash × ShieldedClaimEffects)} {c : PaymentClaim}

lemma Spent.congr (hs : Spent images accepted g s history) (h : s.SameShielded s')
    (hremainder : s'.unallocatedCirculating.val + s.monetary.circulating =
      s.unallocatedCirculating.val + s'.monetary.circulating) :
    Spent images accepted g s' history := by
  obtain ⟨hnetwork, hnullifiers, hshielded⟩ := h
  have hold := hs.remainder
  constructor
  case networkId => rw [hnetwork, hs.networkId]
  case applied => rw [hshielded, hs.applied]
  case nodup => rw [hshielded]; exact hs.nodup
  case accepted => exact hs.accepted
  case held => rw [hshielded, hnullifiers]; exact hs.held
  case outputs => rw [hshielded]; exact hs.outputs
  case pool => rw [shieldedPool, shieldedPool, hshielded]; exact hs.pool
  case remainder => omega

/-- A transfer between accounts leaves the remainder and the monetary ledger alone. -/
lemma ClaimStep.same_remainder [Primitives] (h : ClaimStep s c s') :
    s'.unallocatedCirculating = s.unallocatedCirculating ∧ s'.monetary = s.monetary := by
  cases h with
  | dropped | rejected => exact ⟨rfl, rfl⟩
  | executed _ _ hpaid =>
    obtain ⟨-, rfl⟩ | ⟨-, _, _, -, -, rfl⟩ := transfer_ok hpaid <;> exact ⟨rfl, rfl⟩

lemma Spent.claimStep [Primitives] (hs : Spent images accepted g s history)
    (h : ClaimStep s c s') : Spent images accepted g s' history := by
  obtain ⟨hremainder, hmonetary⟩ := h.same_remainder
  exact hs.congr (sameShielded_claimStep h) (by rw [hremainder, hmonetary])

lemma Spent.applyMonetaryEpoch {epoch : Option ScalableEpochPlan}
    (hs : Spent images accepted g s history) (h : s.applyMonetaryEpoch epoch = .ok s') :
    Spent images accepted g s' history := by
  refine hs.congr (sameShielded_applyMonetaryEpoch h) ?_
  obtain rfl | ⟨_, _, _, _, _, _, hremainder, _, rfl⟩ := applyMonetaryEpoch_ok h
  · rfl
  · simp only
    omega

/-- The key images of an applied claim are its own already. -/
lemma Spent.held_of_mem {group : List NullifierRecord}
    (hs : Spent images accepted g s history) (happlied : digest ∈ s.shielded.applied)
    (himages : ∀ image, (∃ r ∈ group, r.keyImage = image) ↔ image ∈ images digest) :
    ∀ r ∈ group, s.nullifiers[r.keyImage]? = some digest :=
  fun r hr => (hs.held _ _).mpr ⟨happlied, (himages _).mp ⟨r, hr, rfl⟩⟩

lemma Spent.groupStep {verifier : ClaimVerifier}
    (hs : Spent images accepted g s history) (hown : verifier.Owns g.networkId images)
    (haccepted : ∀ d group effects, verifier.verifyClaim g.networkId d group = some effects →
      accepted d effects) (h : GroupStep verifier s digest s') :
    ∃ history', Spent images accepted g s' history' := by
  cases h with
  | skipped => exact ⟨history, hs⟩
  | @taken group effects shielded fee unallocated hne hgroup hverify htake happly hfee =>
    rw [hs.networkId] at hverify
    have himages := hown digest group effects hverify
    have hmem : ∀ k, k ∈ group.map NullifierRecord.keyImage ↔ k ∈ images digest := by
      intro k
      rw [mem_map, ← himages k]
    have hpool := ShieldedLedger.pool_apply happly
    have hold := hs.remainder
    have holdPool := hs.pool
    simp only [shieldedPool] at holdPool
    rcases ShieldedLedger.apply_ok happly with
      ⟨hin, rfl, rfl⟩ | ⟨hnew, -, -, -, -, rfl, pool, -, rfl⟩
    · -- delivered again: the claim holds its key images and pays no second fee
      refine ⟨history, hs.congr ⟨rfl, ?_, rfl⟩ ?_⟩
      · refine insertAll_eq_self fun e he => ?_
        obtain ⟨r, hr, rfl⟩ := mem_map.mp he
        exact hs.held_of_mem hin himages r hr
      · simp only [UInt64.toNat_zero] at hfee
        simp only
        omega
    · obtain ⟨hkeys, hnodup⟩ := ShieldedLedger.fresh_of_apply happly hnew
      refine ⟨history ++ [(digest, effects)], ?_⟩
      constructor
      case networkId => exact hs.networkId
      case applied => simp [hs.applied]
      case nodup => exact hs.nodup.append (nodup_singleton _) (by simpa using hnew)
      case accepted =>
        intro e he
        rcases mem_append.mp he with he | he
        · exact hs.accepted e he
        · rw [mem_singleton.mp he]
          exact haccepted digest group effects hverify
      case held =>
        intro k d
        simp only [getElem?_nullifiers_taken, mem_append, mem_singleton]
        split_ifs with hk
        · constructor
          · intro heq
            cases heq
            exact ⟨.inr rfl, (hmem k).mp hk⟩
          · rintro ⟨hd | rfl, hkd⟩
            · rw [eq_of_takeable htake hk ((hs.held k d).mpr ⟨hd, hkd⟩)]
            · rfl
        · rw [hs.held k d]
          refine ⟨fun h => ⟨.inl h.1, h.2⟩, ?_⟩
          rintro ⟨hd | rfl, hkd⟩
          · exact ⟨hd, hkd⟩
          · exact absurd ((hmem k).mpr hkd) hk
      case outputs =>
        have hadded := toList_insertAll_perm (m := s.shielded.outputs)
          (fun e (he : e ∈ effects.rows) => by
            obtain ⟨o, ho, rfl⟩ := mem_map.mp he
            exact hkeys o ho)
          (by simpa [ShieldedClaimEffects.rows, Function.comp_def] using hnodup)
        have hrows : (history ++ [(digest, effects)]).flatMap (fun e => e.2.rows) =
            history.flatMap (fun e => e.2.rows) ++ effects.rows := by simp
        rw [hrows, ← append_assoc]
        exact hadded.trans (hs.outputs.append_right _)
      case pool =>
        simp only [shieldedPool, map_append, sum_append, map_cons, map_nil,
          sum_cons, sum_nil] at hpool ⊢
        omega
      case remainder =>
        simp only [map_append, sum_append, map_cons, map_nil, sum_cons, sum_nil]
        omega

lemma Spent.applyBlock [Primitives] (hs : ∃ history, Spent images accepted g s history)
    (hown : ∀ v ∈ verifier, v.Owns g.networkId images)
    (haccepted : ∀ v ∈ verifier, ∀ d group effects,
      v.verifyClaim g.networkId d group = some effects → accepted d effects)
    (h : s.applyBlockWithVerifier body verifier = .ok s') :
    ∃ history, Spent images accepted g s' history := by
  refine applyBlock_invariant (P := fun t => ∃ history, Spent images accepted g t history)
    ?_ ?_ ?_ hs h
  · rintro t c t' ⟨history, ht⟩ hstep
    exact ⟨history, ht.claimStep hstep⟩
  · rintro v hv t digest t' ⟨history, ht⟩ hstep
    exact ht.groupStep (hown v hv) (haccepted v hv) hstep
  · rintro t epoch t' ⟨history, ht⟩ hstep
    exact ⟨history, ht.applyMonetaryEpoch hstep⟩

end Steps

/-- Nothing is spent at genesis. -/
lemma Genesis.spent [Primitives] {g : LedgerState} (h : g.Genesis)
    (accepted : Hash → ShieldedClaimEffects → Prop) : Spent images accepted g g [] := by
  have hnone : g.nullifiers = ∅ ∧ g.shielded.applied = [] := by
    cases h with
    | supply => exact ⟨rfl, rfl⟩
    | balances h =>
      obtain ⟨_, -, h⟩ := bind_ok.mp h
      obtain ⟨-, hresult⟩ := failIf_bind_ok.mp h
      cases hresult
      exact ⟨rfl, rfl⟩
    | shielded h =>
      obtain ⟨ledger, hledger, h⟩ := bind_ok.mp h
      obtain ⟨_, -, hresult⟩ := bind_ok.mp h
      cases hresult
      exact ⟨rfl, (ShieldedLedger.fromGenesis_genesis hledger).2⟩
  obtain ⟨hnullifiers, happlied⟩ := hnone
  constructor
  case networkId => rfl
  case applied => simp [happlied]
  case nodup => simp [happlied]
  case accepted => simp
  case held => simp [hnullifiers, happlied]
  case outputs => simp
  case pool => simp
  case remainder => simp

/-! ### Delivered again -/

section Redelivery

variable {accepted : Hash → ShieldedClaimEffects → Prop} {g s : LedgerState}
  {history : List (Hash × ShieldedClaimEffects)} {s' : LedgerState}

/-- The group of an applied claim changes nothing; whether it passes is up to the verifier. -/
lemma Spent.applyGroup_ok {verifier : ClaimVerifier} {records : List NullifierRecord}
    (hs : Spent images accepted g s history)
    (hown : verifier.Owns s.networkId images) (happlied : digest ∈ s.shielded.applied)
    (hrecord : ∃ r ∈ records, r.claimDigest = digest) :
    applyGroup verifier (recordGroups records) s digest = .ok s' ↔
      s' = s ∧ (verifier.verifyClaim s.networkId digest
        (records.filter fun r => r.claimDigest = digest)).isSome := by
  have hgroup : records.filter (fun r => r.claimDigest = digest) ≠ [] := by
    obtain ⟨r, hr, hdigest⟩ := hrecord
    exact ne_nil_of_mem (mem_filter.mpr ⟨hr, by simpa using hdigest⟩)
  unfold applyGroup
  rw [getElem?_recordGroups, if_neg hgroup]
  simp only [bind_ok, okOr_ok]
  cases hverify : verifier.verifyClaim s.networkId digest
      (records.filter fun r => r.claimDigest = digest) with
  | none => simp
  | some effects =>
    have hheld := hs.held_of_mem happlied (hown digest _ effects hverify)
    have htake : s.takeable digest (records.filter fun r => r.claimDigest = digest) :=
      all_eq_true.mpr fun r hr => by simp [hheld r hr]
    have hsame : insertAll s.nullifiers ((records.filter fun r => r.claimDigest = digest).map
        fun r => (r.keyImage, digest)) = s.nullifiers := by
      refine insertAll_eq_self fun e he => ?_
      obtain ⟨r, hr, rfl⟩ := mem_map.mp he
      exact hheld r hr
    have hfee : s.unallocatedCirculating.checkedAdd (Fin.ofNat _ (0 : UInt64).toNat) =
        .ok s.unallocatedCirculating := Amount.checkedAdd_ok.mpr (by simp)
    have happly : s.shielded.apply digest effects = .ok (s.shielded, 0) := by
      rw [ShieldedLedger.apply, if_pos happlied]
    simp only [Option.some.injEq, exists_eq_left', htake, if_true, happly, bind_ok,
      Except.ok.injEq, mapError_ok, hfee, pure_ok, hsame, Option.isSome_some, and_true]
    exact eq_comm

variable [Primitives]

/-- A body of groups that were all applied before, if it passes, changes nothing. -/
lemma Spent.eq_of_redelivered (hs : Spent images accepted g s history)
    (hown : ∀ v ∈ verifier, v.Owns s.networkId images)
    (hclaims : body.claims = []) (hepochs : body.monetaryEpochs = [])
    (happlied : ∀ r ∈ body.nullifiers, r.claimDigest ∈ s.shielded.applied)
    (h : s.applyBlockWithVerifier body verifier = .ok s') : s' = s := by
  obtain ⟨paid, spent, hpaid, hspent, hnext, -⟩ := applyBlockWithVerifier_ok h
  rw [hclaims] at hpaid
  rw [hepochs] at hnext
  cases hpaid
  cases hnext
  unfold applyNullifiers at hspent
  split at hspent
  next =>
    cases hspent
    rfl
  next =>
    obtain ⟨v, hv, hspent⟩ := bind_ok.mp hspent
    obtain ⟨-, hspent⟩ := failIf_bind_ok.mp hspent
    refine foldlM_invariant (P := fun t => t = s) ?_ rfl hspent
    rintro _ digest hdigest t rfl hstep
    obtain ⟨r, hr, rfl⟩ := mem_claimOrder.mp hdigest
    exact ((hs.applyGroup_ok (hown v (okOr_ok.mp hv)) (happlied r hr)
      ⟨r, hr, rfl⟩).mp hstep).1

/-- A body of groups that were all applied before passes when the verifier still accepts them. -/
lemma Spent.applyBlock_redelivered {verifier : ClaimVerifier}
    (hs : Spent images accepted g s history) (hconserved : s.Conserved)
    (hown : verifier.Owns s.networkId images)
    (hclaims : body.claims = []) (hepochs : body.monetaryEpochs = [])
    (happlied : ∀ r ∈ body.nullifiers, r.claimDigest ∈ s.shielded.applied)
    (hlength : body.nullifiers.length ≤ maxNullifiersPerBlock)
    (hrecords : ∀ r ∈ body.nullifiers, r.isWellFormed ∧
      (verifier.verifyClaim s.networkId r.claimDigest
        (body.nullifiers.filter fun r' => r'.claimDigest = r.claimDigest)).isSome) :
    s.applyBlockWithVerifier body (some verifier) = .ok s := by
  have hspent : s.applyNullifiers body.nullifiers (some verifier) = .ok s := by
    unfold applyNullifiers
    split
    next => rfl
    next =>
      refine bind_ok.mpr ⟨verifier, rfl, failIf_bind_ok.mpr ⟨?_, ?_⟩⟩
      · rintro ⟨r, hr, hbad⟩
        exact hbad (hrecords r hr).1
      · refine foldlM_eq_self fun digest hdigest => ?_
        obtain ⟨r, hr, rfl⟩ := mem_claimOrder.mp hdigest
        exact (hs.applyGroup_ok hown (happlied r hr) ⟨r, hr, rfl⟩).mpr ⟨rfl, (hrecords r hr).2⟩
  have hsupply := verifySupplyConservation_ok.mpr ⟨hconserved.supply, hconserved.fits⟩
  unfold applyBlockWithVerifier
  rw [hclaims, hepochs]
  refine failIf_bind_ok.mpr ⟨by simp, failIf_bind_ok.mpr ⟨by simp, ?_⟩⟩
  refine failIf_bind_ok.mpr ⟨not_lt.mpr hlength, failIf_bind_ok.mpr ⟨by simp, ?_⟩⟩
  refine bind_ok.mpr ⟨s, rfl, bind_ok.mpr ⟨s, hspent, ?_⟩⟩
  exact bind_ok.mpr ⟨s, rfl, bind_ok.mpr ⟨(), hsupply, rfl⟩⟩

end Redelivery

/-! ### Single use -/

/-- **Shielded spends are all or nothing, and single-use.** In every run under verifiers that accept
a claim with exactly its own key images: a key image is held by a claim exactly when the claim is
applied and the image is its own, and stays held by it; a claim that was delivered and not applied
lost one of its key images to another and holds none; the outputs and the fee of every applied
claim have been applied once; and delivering applied groups again changes nothing. -/
theorem spends_once [Primitives] {images : Hash → Set Bytes} {g s : LedgerState}
    {blocks : List (SettlementBlockBody × Option ClaimVerifier)} (hgenesis : Genesis g)
    (hruns : Runs g blocks s)
    (hown : ∀ block ∈ blocks, ∀ verifier ∈ block.2, verifier.Owns g.networkId images) :
    (∀ (k : Bytes) (d : Hash), s.nullifiers[k]? = some d ↔ d ∈ s.shielded.applied ∧ k ∈ images d) ∧
    (∀ later s', Runs s later s' → ∀ (k : Bytes) (d : Hash),
      s.nullifiers[k]? = some d → s'.nullifiers[k]? = some d) ∧
    (∀ block ∈ blocks, ∀ r ∈ block.1.nullifiers, r.claimDigest ∉ s.shielded.applied →
      (∃ k ∈ images r.claimDigest, ∃ d, s.nullifiers[k]? = some d ∧ d ≠ r.claimDigest) ∧
      ∀ k : Bytes, s.nullifiers[k]? ≠ some r.claimDigest) ∧
    (∃ history : List (Hash × ShieldedClaimEffects),
      s.shielded.applied = history.map Prod.fst ∧ s.shielded.applied.Nodup ∧
      (∀ e ∈ history, ∃ block ∈ blocks, ∃ verifier ∈ block.2, ∃ group,
        verifier.verifyClaim g.networkId e.1 group = some e.2) ∧
      s.shielded.outputs.toList.Perm
        (g.shielded.outputs.toList ++ history.flatMap fun e => e.2.rows) ∧
      g.shieldedPool.val =
        s.shieldedPool.val + (history.map fun e => e.2.feeMicro.toNat).sum ∧
      s.unallocatedCirculating.val + g.monetary.circulating = g.unallocatedCirculating.val +
        (history.map fun e => e.2.feeMicro.toNat).sum + s.monetary.circulating) ∧
    (∀ body : SettlementBlockBody, body.claims = [] → body.monetaryEpochs = [] →
      (∀ r ∈ body.nullifiers, r.claimDigest ∈ s.shielded.applied) →
      (∀ verifier s', (∀ v ∈ verifier, v.Owns g.networkId images) →
        s.applyBlockWithVerifier body verifier = .ok s' → s' = s) ∧
      ∀ verifier : ClaimVerifier, verifier.Owns g.networkId images →
        body.nullifiers.length ≤ maxNullifiersPerBlock →
        (∀ r ∈ body.nullifiers, r.isWellFormed ∧
          (verifier.verifyClaim g.networkId r.claimDigest
            (body.nullifiers.filter fun r' => r'.claimDigest = r.claimDigest)).isSome) →
        s.applyBlockWithVerifier body (some verifier) = .ok s) := by
  let accepted : Hash → ShieldedClaimEffects → Prop := fun d effects =>
    ∃ block ∈ blocks, ∃ verifier ∈ block.2, ∃ group,
      verifier.verifyClaim g.networkId d group = some effects
  obtain ⟨history, hspent⟩ : ∃ history, Spent images accepted g s history := by
    refine hruns.invariant_of_mem (P := fun t => ∃ history, Spent images accepted g t history)
      (fun block hblock t t' ht happly => ?_) ⟨[], hgenesis.spent _⟩
    refine Spent.applyBlock ht (hown block hblock) (fun v hv d group effects hverify => ?_) happly
    exact ⟨block, hblock, v, hv, group, hverify⟩
  have hconserved : s.Conserved := Reachable.conserved ⟨g, blocks, hgenesis, hruns⟩
  refine ⟨hspent.held, fun _ _ hlater => hlater.grows.nullifiers, ?_, ?_, ?_⟩
  · intro block hblock r hr hskipped
    have hconflict := (hruns.settled hown block hblock r hr).resolve_left hskipped
    exact ⟨hconflict, fun k hk => hskipped ((hspent.held k _).mp hk).1⟩
  · exact ⟨history, hspent.applied, hspent.nodup, hspent.accepted, hspent.outputs, hspent.pool,
      hspent.remainder⟩
  · intro body hclaims hepochs happlied
    rw [← hspent.networkId]
    exact ⟨fun verifier s' hv h => hspent.eq_of_redelivered hv hclaims hepochs happlied h,
      fun verifier hv hlength hrecords => hspent.applyBlock_redelivered hconserved hv hclaims
        hepochs happlied hlength hrecords⟩

/-! ### Two claims on one key image -/

/-- A claim that wants the key image of the sample spend. -/
def rivalSpend : NullifierRecord := { LedgerChain.sampleSpend with claimDigest := Vector.replicate 32 9 }

/-- A verifier to whom every claim spends the one key image. -/
def rivalVerifier : ClaimVerifier where
  verifyClaim _ digest group :=
    if group ≠ [] ∧ ∀ r ∈ group, r.keyImage = LedgerChain.sampleSpend.keyImage then
      some {
        ringMembers := [LedgerChain.sampleAllocation.output]
        outputs := [⟨digest.bytes, sampleAccount 6⟩]
        feeMicro := 7 }
    else none
  verifyGenesisAllocation _ _ := true

lemma owns_rivalVerifier (network : Hash) :
    rivalVerifier.Owns network fun _ => {LedgerChain.sampleSpend.keyImage} := by
  intro digest group effects h image
  simp only [rivalVerifier, Option.ite_none_right_eq_some] at h
  obtain ⟨⟨hne, hall⟩, -⟩ := h
  obtain ⟨r, hr⟩ := exists_mem_of_ne_nil group hne
  exact ⟨fun ⟨r, hr, himage⟩ => himage ▸ hall r hr, fun himage => ⟨r, hr, (hall r hr).trans himage.symm⟩⟩

theorem rival_spend_skipped :
    letI := Primitives.sample
    ∃ (g s : LedgerState) (blocks : List (SettlementBlockBody × Option ClaimVerifier)),
      Genesis g ∧ Runs g blocks s ∧
      s.nullifiers[LedgerChain.sampleSpend.keyImage]? = some LedgerChain.sampleSpend.claimDigest ∧
      (∀ k : Bytes, s.nullifiers[k]? ≠ some rivalSpend.claimDigest) ∧
      s.applyBlockWithVerifier { nullifiers := [LedgerChain.sampleSpend] } (some rivalVerifier) =
        .ok s := by
  let := Primitives.sample
  let body : SettlementBlockBody :=
    { nullifiers := [LedgerChain.sampleSpend, rivalSpend, LedgerChain.sampleSpend] }
  obtain ⟨g, hg, h⟩ := exists_of_any
    (x := withShieldedGenesis mininetNetworkId [LedgerChain.sampleAllocation] rivalVerifier)
    (fun g : LedgerState => (@applyBlockWithVerifier .sample g
      { nullifiers := [LedgerChain.sampleSpend, rivalSpend, LedgerChain.sampleSpend] }
      (some rivalVerifier)).toOption.any fun s : LedgerState =>
        decide (s.shielded.applied = [LedgerChain.sampleSpend.claimDigest])) (by decide +kernel)
  obtain ⟨s, hs, happlied⟩ := exists_of_any _ h
  have happlied := of_decide_eq_true happlied
  have hruns : Runs g [(body, some rivalVerifier)] s := .cons hs (.nil s)
  obtain ⟨hheld, -, hskipped, -, hagain⟩ := @spends_once _
    (fun _ => {LedgerChain.sampleSpend.keyImage}) g s _ (.shielded hg) hruns
    fun block hblock v hv => by
      rw [mem_singleton.mp hblock] at hv
      cases hv
      exact owns_rivalVerifier _
  refine ⟨g, s, _, .shielded hg, hruns, (hheld _ _).mpr ⟨by simp [happlied], rfl⟩, ?_, ?_⟩
  · refine (hskipped _ mem_cons_self rivalSpend (by simp [body]) ?_).2
    rw [happlied]
    decide
  · refine (hagain { nullifiers := [LedgerChain.sampleSpend] } rfl rfl (by simp [happlied])).2
      rivalVerifier (owns_rivalVerifier _) (by decide) fun r hr => ?_
    rw [mem_singleton.mp hr]
    exact ⟨by decide, by simp [rivalVerifier]⟩

end LedgerState

end Mininet

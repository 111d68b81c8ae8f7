import Mininet.Forge.Walk

/-!
# What makes an entry valid

The quorum of the source is the number of maintainers, other than the author, who approve. With it a
merge and an amendment are valid exactly when they have what is listed below.
-/

namespace Mininet.Forge

open Codec Fallible Identity Objects

variable [KeyPrimitives]

/-! ### Approvals -/

/-- An approval, on a target, of what was reviewed. -/
structure Approval (s : Store) (oracle : IdentityOracle) (target reviewed : ObjectId) (m : Did)
    (a : Object) : Prop where
  get_eq : s.get a.id = .ok a
  linking : a.id ∈ s.linkingTo target
  objectType : a.objectType = .custom approveType
  reviewed_eq : parseApprovalPayloadStrict a = some reviewed.asStr
  author_eq : a.authorHuman = m
  verified : authorVerified oracle a = true

open Classical in
/-- The maintainers other than the author who approve. -/
noncomputable def approvers (s : Store) (oracle : IdentityOracle) (target reviewed : ObjectId)
    (policy : Policy) (author : Did) : Finset Did :=
  policy.maintainers.toFinset.filter fun m =>
    m ≠ author ∧ ∃ a, Approval s oracle target reviewed m a

section

variable {s : Store} {oracle : IdentityOracle} {target : ObjectId} {boundTo : Option ObjectId}
  {reviewed : ObjectId} {policy : Policy} {author : Did}

lemma mem_approvers {m : Did} :
    m ∈ approvers s oracle target reviewed policy author ↔
      m ∈ policy.maintainers ∧ m ≠ author ∧ ∃ a, Approval s oracle target reviewed m a := by
  simp [approvers]

lemma approvingRoot_some {id : ObjectId} {scid : String} :
    approvingRoot s oracle target boundTo policy author id = some scid ↔
      ∃ a, s.get id = .ok a ∧ a.objectType = .custom approveType ∧
        parseApprovalPayloadStrict a = some (boundTo.getD target).asStr ∧
        a.authorHuman ≠ author ∧ a.authorHuman ∈ policy.maintainers ∧
        authorVerified oracle a = true ∧ a.authorHuman.scid = scid := by
  rw [approvingRoot]
  split
  next hget => simp [hget]
  next a hget =>
    simp only [hget, Except.ok.injEq, exists_eq_left', Option.ite_none_right_eq_some,
      Option.some.injEq, ne_eq, Did.asStr_injective.eq_iff, Policy.contains_iff, and_assoc]

/-- The identities that are counted are those of the approvers. -/
lemma roots_toFinset :
    ((s.linkingTo target).filterMap
        (approvingRoot s oracle target boundTo policy author)).toFinset =
      (approvers s oracle target (boundTo.getD target) policy author).image Did.scid := by
  ext scid
  simp only [List.mem_toFinset, List.mem_filterMap, approvingRoot_some, Finset.mem_image,
    mem_approvers]
  constructor
  · rintro ⟨id, hid, a, hget, htype, hreviewed, hauthor, hmaintainer, hverified, rfl⟩
    obtain rfl := Store.id_of_get hget
    exact ⟨a.authorHuman, ⟨hmaintainer, hauthor, a, hget, hid, htype, hreviewed, rfl, hverified⟩,
      rfl⟩
  · rintro ⟨m, ⟨hmaintainer, hauthor, a, h⟩, rfl⟩
    obtain rfl := h.author_eq
    exact ⟨a.id, h.linking, a, h.get_eq, h.objectType, h.reviewed_eq, hauthor, hmaintainer,
      h.verified, rfl⟩

/-- The quorum is the number of approvers. -/
lemma toNat_quorum (hvalid : policy.Valid) :
    (quorum s oracle target boundTo policy author).toNat =
      (approvers s oracle target (boundTo.getD target) policy author).card := by
  have hscid : Function.Injective Did.scid := fun ⟨a⟩ ⟨b⟩ h => congrArg Did.mk h
  have hle : (approvers s oracle target (boundTo.getD target) policy author).card ≤
      maxMaintainers :=
    calc (approvers s oracle target (boundTo.getD target) policy author).card
        ≤ policy.maintainers.toFinset.card :=
          Finset.card_le_card fun m hm => List.mem_toFinset.mpr (mem_approvers.mp hm).1
      _ ≤ policy.maintainers.length := List.toFinset_card_le _
      _ ≤ maxMaintainers := hvalid.length_le
  have hcount : ((s.linkingTo target).filterMap
      (approvingRoot s oracle target boundTo policy author)).dedup.length =
      (approvers s oracle target (boundTo.getD target) policy author).card := by
    rw [← List.card_toFinset, roots_toFinset, Finset.card_image_of_injective _ hscid]
  rw [quorum, hcount]
  refine UInt32.toNat_ofNat_of_lt' ?_
  have hsize : maxMaintainers < UInt32.size := by decide
  omega

lemma le_quorum_iff (hvalid : policy.Valid) :
    policy.minApprovals ≤ quorum s oracle target boundTo policy author ↔
      policy.minApprovals.toNat ≤
        (approvers s oracle target (boundTo.getD target) policy author).card := by
  rw [UInt32.le_iff_toNat_le, toNat_quorum hvalid]

end

/-! ### Merges and amendments -/

/-- A merge that is valid, but for what it is based on. -/
structure MergeValid (s : Store) (oracle : IdentityOracle) (projectId : ObjectId) (policy : Policy)
    (e pr : Object) (head : ObjectId) : Prop where
  pr_eq : linked e "pr" = some pr.id
  get_pr : s.get pr.id = .ok pr
  objectType : pr.objectType = .custom prType
  verified : authorVerified oracle pr = true
  payload : ∃ payload, parsePrPayloadStrict pr = some payload
  project_eq : linked pr "project" = some projectId
  base_eq : linked pr "base" = linked e "prev"
  head_eq : linked pr "head" = some head
  commit : ∃ h, s.get head = .ok h ∧ authorVerified oracle h = true ∧
    commitIsWellFormed s h = true
  approved : policy.minApprovals.toNat ≤
    (approvers s oracle pr.id head policy pr.authorHuman).card

section

variable {s : Store} {oracle : IdentityOracle} {projectId : ObjectId} {policy : Policy}

variable {e : Object} {branches : List (String × ObjectId)}

lemma mergeIsValid_iff (hvalid : policy.Valid) : mergeIsValid s oracle projectId e policy = true ↔
      (∃ prev, linked e "prev" = some prev) ∧
        ∃ pr head, MergeValid s oracle projectId policy e pr head := by
  rw [mergeIsValid]
  constructor
  · intro h
    split at h
    next => cases h
    next prId hpr =>
      split at h
      next => cases h
      next pr hget =>
        simp only [Bool.and_eq_true, decide_eq_true_eq, Option.isSome_iff_exists] at h
        obtain ⟨⟨⟨⟨⟨⟨htype, hverified⟩, hpayload⟩, hproject⟩, hprev⟩, hbase⟩, h⟩ := h
        split at h
        next => cases h
        next head hhead =>
          split at h
          next => cases h
          next c hc =>
            simp only [Bool.and_eq_true, decide_eq_true_eq] at h
            obtain rfl := Store.id_of_get hget
            exact ⟨hprev, pr, head, hpr, hget, htype, hverified, hpayload, hproject, hbase, hhead,
              ⟨c, hc, h.1.1, h.1.2⟩, (le_quorum_iff hvalid).mp h.2⟩
  · rintro ⟨hprev, pr, head, h⟩
    obtain ⟨c, hc, hverified, hwell⟩ := h.commit
    rw [h.pr_eq]
    dsimp only
    rw [h.get_pr]
    dsimp only
    rw [h.head_eq]
    dsimp only
    rw [hc]
    simp only [Bool.and_eq_true, decide_eq_true_eq, Option.isSome_iff_exists]
    exact ⟨⟨⟨⟨⟨⟨h.objectType, h.verified⟩, h.payload⟩, h.project_eq⟩, hprev⟩, h.base_eq⟩,
      ⟨hverified, hwell⟩, (le_quorum_iff hvalid).mpr h.approved⟩

/-- What makes an entry valid: a merge, or an amendment. -/
lemma entryIsValid_iff (hvalid : policy.Valid) :
    entryIsValid s oracle projectId e policy = .ok true ↔
      (parseChainEntryPayloadStrict e = some .merge ∧ (∃ prev, linked e "prev" = some prev) ∧
        ∃ pr head, MergeValid s oracle projectId policy e pr head) ∨
      ∃ newPolicy, parseChainEntryPayloadStrict e = some (.amend newPolicy) ∧
        policy.minApprovals.toNat ≤
          (approvers s oracle e.id e.id policy e.authorHuman).card := by
  rw [entryIsValid]
  cases hparse : parseChainEntryPayloadStrict e with
  | none => simp
  | some entry =>
    cases entry with
    | merge =>
      simp only [Except.ok.injEq, mergeIsValid_iff hvalid, true_and, Option.some.injEq, reduceCtorEq,
        false_and, exists_false, or_false]
    | amend newPolicy =>
      dsimp only
      rw [validPolicy_ok.mpr (parseChainEntry_eq_amend.mp hparse).2.1]
      have hquorum : policy.minApprovals ≤ quorum s oracle e.id none policy e.authorHuman ↔
          policy.minApprovals.toNat ≤ (approvers s oracle e.id e.id policy e.authorHuman).card :=
        le_quorum_iff hvalid
      constructor
      · intro h
        exact .inr ⟨newPolicy, rfl, hquorum.mp (of_decide_eq_true (Except.ok.inj h))⟩
      · rintro (⟨hmerge, -⟩ | ⟨p, -, hp⟩)
        · cases hmerge
        · exact congrArg Except.ok (decide_eq_true (hquorum.mpr hp))

/-- A branch moved by a merge. -/
lemma applyEntry_merge {pr : Object} {head : ObjectId} {branch title : String}
    (hparse : parseChainEntryPayloadStrict e = some .merge)
    (h : MergeValid s oracle projectId policy e pr head)
    (hpayload : parsePrPayloadStrict pr = some (branch, title)) :
    applyEntry s e policy branches = .ok (policy, setBranch branch head branches) := by
  refine bind_ok.mpr ⟨.merge, okOr_ok.mpr hparse, ?_⟩
  refine bind_ok.mpr ⟨pr.id, okOr_ok.mpr h.pr_eq, bind_ok.mpr ⟨pr,
    mapError_ok.mpr h.get_pr, bind_ok.mpr ⟨(branch, title), okOr_ok.mpr hpayload, ?_⟩⟩⟩
  exact bind_ok.mpr ⟨head, okOr_ok.mpr h.head_eq, rfl⟩

lemma applyEntry_amend {newPolicy : Policy}
    (hparse : parseChainEntryPayloadStrict e = some (.amend newPolicy)) :
    applyEntry s e policy branches = .ok (newPolicy, branches) :=
  bind_ok.mpr ⟨.amend newPolicy, okOr_ok.mpr hparse, rfl⟩

end

end Mininet.Forge

import Mininet.Forge.Members

/-!
# What the walk applies

Every entry that resolving a project applies was recorded by a maintainer, and approved by enough
others. The walk looks for a link to the tip among all links of an entry, and the base of a merge is
compared with the first of them: it is the tip exactly when that one is.
-/

namespace Mininet.Forge

open Codec Fallible Identity Objects

section

variable [KeyPrimitives]

/-- A merge as it is applied at a tip. -/
structure MergeApplied (s : Store) (oracle : IdentityOracle) (projectId : ObjectId)
    (st : ProjectState) (e : Object) (st' : ProjectState) (pr : Object) (head : ObjectId) :
    Prop where
  recorder : e.authorHuman ∈ st.policy.maintainers
  recorded : authorVerified oracle e = true
  pr_eq : linked e "pr" = some pr.id
  get_pr : s.get pr.id = .ok pr
  objectType : pr.objectType = .custom prType
  project_eq : linked pr "project" = some projectId
  head_eq : linked pr "head" = some head
  moved : ∃ branch title, parsePrPayloadStrict pr = some (branch, title) ∧
    st'.branches = setBranch branch head st.branches ∧ st'.policy = st.policy
  approved : st.policy.minApprovals.toNat ≤
    (approvers s oracle pr.id head st.policy pr.authorHuman).card
  base_iff : linked pr "base" = some st.tip ↔ linked e "prev" = some st.tip

/-- An amendment as it is applied. -/
structure AmendApplied (s : Store) (oracle : IdentityOracle) (st : ProjectState) (e : Object)
    (st' : ProjectState) : Prop where
  recorder : e.authorHuman ∈ st.policy.maintainers
  recorded : authorVerified oracle e = true
  amended : parseChainEntryPayloadStrict e = some (.amend st'.policy)
  branches_eq : st'.branches = st.branches
  approved : st.policy.minApprovals.toNat ≤
    (approvers s oracle e.id e.id st.policy e.authorHuman).card

section

variable {s : Store} {oracle : IdentityOracle} {projectId : ObjectId}

lemma Advances.applied_cases {st st' : ProjectState} {e : Object}
    (h : Advances s oracle projectId st e st') (hvalid : st.policy.Valid) :
    (parseChainEntryPayloadStrict e = some .merge ∧
        ∃ pr head, MergeApplied s oracle projectId st e st' pr head) ∨
      AmendApplied s oracle st e st' := by
  have hafter := isEntryAfter_iff.mp h.valid.after
  rcases (entryIsValid_iff hvalid).mp h.valid.valid with
    ⟨hparse, -, pr, head, hmerge⟩ | ⟨newPolicy, hparse, hquorum⟩
  · obtain ⟨⟨branch, title⟩, hpayload⟩ := hmerge.payload
    have happlied := h.applied
    rw [applyEntry_merge hparse hmerge hpayload] at happlied
    obtain ⟨hpolicy, hbranches⟩ := Prod.mk.inj (Except.ok.inj happlied)
    refine .inl ⟨hparse, pr, head, hafter.recorder, hafter.verified, hmerge.pr_eq, hmerge.get_pr,
      hmerge.objectType, hmerge.project_eq, hmerge.head_eq,
      ⟨branch, title, hpayload, hbranches.symm, hpolicy.symm⟩, hmerge.approved, ?_⟩
    rw [hmerge.base_eq]
  · have happlied := h.applied
    rw [applyEntry_amend hparse] at happlied
    obtain ⟨hpolicy, hbranches⟩ := Prod.mk.inj (Except.ok.inj happlied)
    exact .inr ⟨hafter.recorder, hafter.verified, hpolicy ▸ hparse, hbranches.symm, hquorum⟩

/-- Everything that resolving a project applies is a merge or an amendment that enough maintainers
approved; and a merge is based on the tip exactly when that is the first predecessor it names. -/
theorem applied_of_resolveProject {fin : ProjectState}
    (h : resolveProject s oracle projectId = .ok fin) :
    ∃ start es, genesisState s oracle projectId = .ok start ∧
      Walk s oracle projectId start es fin ∧
      ∀ before e after st st', es = before ++ e :: after → Walk s oracle projectId start before st →
        Advances s oracle projectId st e st' → Walk s oracle projectId st' after fin →
        (parseChainEntryPayloadStrict e = some .merge ∧
            ∃ pr head, MergeApplied s oracle projectId st e st' pr head) ∨
          AmendApplied s oracle st e st' := by
  obtain ⟨start, es, hstart, hwalk, -, -⟩ := resolveProject_ok.mp h
  refine ⟨start, es, hstart, hwalk, fun before e after st st' _ hbefore hadvances _ => ?_⟩
  obtain ⟨_, -, -, -, -, -, hvalid, -⟩ := genesisState_ok.mp hstart
  exact hadvances.applied_cases (hbefore.policy_valid hvalid)

end

end

/-- A project in which a merge was applied. -/
theorem sample_applied :
    ∃ (s : Store) (oracle : IdentityOracle) (projectId : ObjectId) (fin : ProjectState),
      fin.entries = 1 ∧ @resolveProject .sample s oracle projectId = .ok fin ∧
      ∃ start es, @genesisState .sample s oracle projectId = .ok start ∧
        @Walk .sample s oracle projectId start es fin ∧
        ∀ before e after st st', es = before ++ e :: after →
          @Walk .sample s oracle projectId start before st →
          @Advances .sample s oracle projectId st e st' →
          @Walk .sample s oracle projectId st' after fin →
          (@parseChainEntryPayloadStrict .sample e = some .merge ∧
              ∃ pr head, @MergeApplied .sample s oracle projectId st e st' pr head) ∨
            @AmendApplied .sample s oracle st e st' := by
  let := KeyPrimitives.sample
  have := lawfulKeys_sample
  obtain ⟨oracle, _, _, _, _, p, h, -⟩ := exists_sample_merging
  obtain ⟨e, -, fin, -, hadvances, hresolve, -⟩ := h.merging.exists_resolve
    (List.forall_mem_singleton.mpr h.authored) h.nodup (by simp) nofun
  exact ⟨_, oracle, p.genesis.id, fin, hadvances.entries_eq, hresolve,
    applied_of_resolveProject hresolve⟩

/-- A merge that names a predecessor of its own before the tip is applied, with a proposal that is
based on that one. -/
theorem sample_base_ne :
    ∃ (os : List Object) (s : Store) (oracle : IdentityOracle) (projectId : ObjectId)
      (start fin : ProjectState) (e pr : Object) (base : ObjectId),
      (∀ o ∈ os, @Object.fromBytes .sample o.toBytes = .ok o) ∧
      s = @Store.after .sample (os.map .insert) ∧
      @resolveProject .sample s oracle projectId = .ok fin ∧
      @genesisState .sample s oracle projectId = .ok start ∧
      @Advances .sample s oracle projectId start e fin ∧
      @parseChainEntryPayloadStrict .sample e = some .merge ∧ linked e "pr" = some pr.id ∧
      @Store.get .sample s pr.id = .ok pr ∧ linked pr "base" = some base ∧ base ≠ start.tip := by
  let := KeyPrimitives.sample
  have := lawfulKeys_sample
  obtain ⟨oracle, _, _, _, _, p, h, hcheck⟩ := exists_merging_of_evaluates
    (some (ObjectId.of []))
    (fun _ p => decide (ObjectId.of [] ≠ p.entry.id ∧ ObjectId.of [] ≠ p.genesis.id))
    (by decide +kernel)
  obtain ⟨hentry, hbase⟩ := of_decide_eq_true hcheck
  have hentries := List.forall_mem_singleton.mpr h.authored
  have hpublic := h.merging.isPublic hentries
  obtain ⟨e, he, fin, hgenesis, hadvances, hresolve, -⟩ := h.merging.exists_resolve hentries h.nodup
    (by simp) (by
      rintro id ⟨⟩ e he
      rw [List.mem_singleton.mp he]
      exact hentry)
  obtain rfl := List.mem_singleton.mp he
  obtain ⟨b, hb, hproposed⟩ := h.merging.proposed
  obtain rfl := propose_ok hb
  refine ⟨h.merging.objects [p.entry], _, oracle, p.genesis.id, _, fin, p.entry, p.pr, ObjectId.of [],
    fun o ho => Object.fromBytes_ok.mpr ⟨rfl, (hpublic o ho).portable⟩, rfl, hresolve, hgenesis,
    hadvances, parseChainEntry_eq_merge.mpr h.authored.payload_eq, ?_, ?_, ?_, hbase⟩
  · rw [linked, h.authored.links_eq]
    rfl
  · exact (Store.get_inserted_iff hpublic h.nodup).mpr ⟨by simp [Merging.objects], rfl⟩
  · rw [linked, hproposed.links_eq]
    rfl

end Mininet.Forge

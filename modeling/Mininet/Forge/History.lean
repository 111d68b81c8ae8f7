import Mininet.Forge.Members

/-!
# Governance in a growing store

A store that holds more has every approval and every valid entry of the smaller one. So two walks go
the same way until the larger store has two valid entries at a tip, which it reports.
-/

namespace Mininet.Forge

open Codec Fallible Identity Objects

section

variable [KeyPrimitives]

section

variable {s s' : Store} {oracle : IdentityOracle} {projectId : ObjectId} {policy : Policy}
  (hholds : Holds s' s) (hindexed : s.Indexed) (hindexed' : s'.Indexed)
include hholds hindexed hindexed'

variable {e : Object}

/-- What links to a target does so in a store that holds more. -/
lemma linkingTo_of_holds {id target : ObjectId} {o : Object} (hget : s.get id = .ok o)
    (h : id ∈ s.linkingTo target) : id ∈ s'.linkingTo target := by
  rw [hindexed' id o (hholds id o hget)]
  exact (hindexed id o hget target).mp h

lemma Approval.of_holds {target reviewed : ObjectId} {m : Did} {a : Object}
    (h : Approval s oracle target reviewed m a) : Approval s' oracle target reviewed m a :=
  ⟨hholds a.id a h.get_eq, linkingTo_of_holds hholds hindexed hindexed' h.get_eq h.linking,
    h.objectType, h.reviewed_eq, h.author_eq, h.verified⟩

lemma approvers_subset (target reviewed : ObjectId) (policy : Policy) (author : Did) :
    approvers s oracle target reviewed policy author ⊆
      approvers s' oracle target reviewed policy author := by
  intro m hm
  obtain ⟨hmaintainer, hauthor, a, ha⟩ := mem_approvers.mp hm
  exact mem_approvers.mpr ⟨hmaintainer, hauthor, a, ha.of_holds hholds hindexed hindexed'⟩

lemma MergeValid.of_holds {pr : Object} {head : ObjectId}
    (h : MergeValid s oracle projectId policy e pr head) :
    MergeValid s' oracle projectId policy e pr head := by
  obtain ⟨c, hc, hverified, hwell⟩ := h.commit
  exact ⟨h.pr_eq, hholds _ _ h.get_pr, h.objectType, h.verified, h.payload, h.project_eq, h.base_eq,
    h.head_eq, ⟨c, hholds _ _ hc, hverified, hholds.commitIsWellFormed hwell⟩,
    h.approved.trans (Finset.card_le_card (approvers_subset hholds hindexed hindexed' _ _ _ _))⟩

/-- What is valid stays valid. -/
lemma ValidAt.of_holds (hvalid : policy.Valid) {tip : ObjectId}
    (h : ValidAt s oracle projectId policy tip e) : ValidAt s' oracle projectId policy tip e := by
  refine ⟨hholds _ _ h.get_eq, linkingTo_of_holds hholds hindexed hindexed' h.get_eq h.linking,
    h.after, (entryIsValid_iff hvalid).mpr ?_⟩
  rcases (entryIsValid_iff hvalid).mp h.valid with
    ⟨hparse, hprev, pr, head, hmerge⟩ | ⟨newPolicy, hparse, hquorum⟩
  · exact .inl ⟨hparse, hprev, pr, head, hmerge.of_holds hholds hindexed hindexed'⟩
  · exact .inr ⟨newPolicy, hparse, hquorum.trans
      (Finset.card_le_card (approvers_subset hholds hindexed hindexed' _ _ _ _))⟩

omit hindexed hindexed' in
lemma applyEntry_of_holds {branches : List (String × ObjectId)}
    {next : Policy × List (String × ObjectId)} (h : applyEntry s e policy branches = .ok next) :
    applyEntry s' e policy branches = .ok next := by
  obtain ⟨entry, hentry, h⟩ := bind_ok.mp h
  refine bind_ok.mpr ⟨entry, hentry, ?_⟩
  cases entry with
  | merge =>
    obtain ⟨prId, hpr, h⟩ := bind_ok.mp h
    obtain ⟨pr, hget, h⟩ := bind_ok.mp h
    exact bind_ok.mpr ⟨prId, hpr, bind_ok.mpr ⟨pr, hholds.mapError_get hget, h⟩⟩
  | amend newPolicy => exact h

omit hindexed hindexed' in
lemma genesisState_of_holds {start : ProjectState}
    (h : genesisState s oracle projectId = .ok start) :
    genesisState s' oracle projectId = .ok start := by
  obtain ⟨genesis, hget, h⟩ := genesisState_ok.mp h
  exact genesisState_ok.mpr ⟨genesis, hholds _ _ hget, h⟩

/-- One step in each store from the same state: the larger one sees a fork, or they do the same. -/
lemma Advances.eq_of_holds {st st₁ st₁' : ProjectState} {e' : Object} (hvalid : st.policy.Valid)
    (h : Advances s oracle projectId st e st₁) (h' : Advances s' oracle projectId st e' st₁')
    (hforks : st₁'.forksDetected = false) : e = e' ∧ st₁ = st₁' := by
  have hnone : st.forksDetected = false ∧
      ∀ x, ValidAt s' oracle projectId st.policy st.tip x → x = e' := by
    have hiff := h'.forks_iff
    rw [hforks] at hiff
    have hnot := fun hor => Bool.false_ne_true (hiff.mpr hor)
    refine ⟨Bool.eq_false_of_not_eq_true fun ht => hnot (.inl ht), fun x hx => ?_⟩
    by_contra hne
    exact hnot (.inr ⟨x, hx, hne⟩)
  have hmore : ∀ {x}, ValidAt s oracle projectId st.policy st.tip x →
      ValidAt s' oracle projectId st.policy st.tip x :=
    fun hx => hx.of_holds hholds hindexed hindexed' hvalid
  obtain rfl := hnone.2 e (hmore h.valid)
  refine ⟨rfl, ?_⟩
  have happlied := applyEntry_of_holds hholds h.applied
  rw [h'.applied] at happlied
  obtain ⟨hpolicy, hbranches⟩ := Prod.mk.inj (Except.ok.inj happlied)
  have hquiet : st₁.forksDetected = false := by
    refine Bool.eq_false_of_not_eq_true fun hfork => ?_
    rcases h.forks_iff.mp hfork with hold | ⟨x, hx, hne⟩
    · exact Bool.false_ne_true (hnone.1.symm.trans hold)
    · exact hne (hnone.2 x (hmore hx))
  obtain ⟨name, p, branches, tip, entries, forks⟩ := st₁
  obtain ⟨name', p', branches', tip', entries', forks'⟩ := st₁'
  rw [ProjectState.mk.injEq]
  exact ⟨h.name_eq.trans h'.name_eq.symm, hpolicy.symm, hbranches.symm,
    h.tip_eq.trans h'.tip_eq.symm, h.entries_eq.trans h'.entries_eq.symm, hquiet.trans hforks.symm⟩

/-- The walk in the larger store sees a fork, or goes on from where the other ends. -/
lemma Walk.continues {st fin fin' : ProjectState} {es es' : List Object}
    (h : Walk s oracle projectId st es fin) (h' : Walk s' oracle projectId st es' fin')
    (hend : ∀ e, ¬ ValidAt s' oracle projectId fin'.policy fin'.tip e) (hvalid : st.policy.Valid)
    (hforks : st.forksDetected = false) :
    fin'.forksDetected = true ∨ fin.forksDetected = false ∧
      ∃ rest, es' = es ++ rest ∧ Walk s' oracle projectId st es fin ∧
        Walk s' oracle projectId fin rest fin' := by
  induction h generalizing es' with
  | nil st => exact .inr ⟨hforks, es', rfl, .nil st, h'⟩
  | @cons st st₁ fin e es hadvances hrest ih =>
    cases h' with
    | nil => exact absurd (hadvances.valid.of_holds hholds hindexed hindexed' hvalid) (hend e)
    | @cons _ st₁' _ e' es' hadvances' hrest' =>
      cases hfork : st₁'.forksDetected with
      | true => exact .inl (hrest'.forksDetected hfork)
      | false =>
        obtain ⟨rfl, rfl⟩ :=
          hadvances.eq_of_holds hholds hindexed hindexed' hvalid hadvances' hfork
        refine (ih hrest' (hadvances.policy_valid hvalid) hfork).imp_right ?_
        rintro ⟨hquiet, rest, rfl, hwalk, hcontinues⟩
        exact ⟨hquiet, rest, rfl, .cons hadvances' hwalk, hcontinues⟩

end

/-- Governance history does not change silently: when a store holds every object of another, either
it reports a fork, or it applies what the other applied, reaching the same state, and goes on from
there; and a fork that the smaller store reports is reported. -/
theorem history_continues [LawfulKeys] {calls calls' : List Store.Call}
    (hfree : Store.CollisionFree calls) (hfree' : Store.CollisionFree calls')
    (hholds : Holds (Store.after calls') (Store.after calls)) {oracle : IdentityOracle}
    {projectId : ObjectId} {fin fin' : ProjectState}
    (h : resolveProject (Store.after calls) oracle projectId = .ok fin)
    (h' : resolveProject (Store.after calls') oracle projectId = .ok fin') :
    ∃ start es es', genesisState (Store.after calls) oracle projectId = .ok start ∧
      genesisState (Store.after calls') oracle projectId = .ok start ∧
      Walk (Store.after calls) oracle projectId start es fin ∧
      Walk (Store.after calls') oracle projectId start es' fin' ∧
      (fin'.forksDetected = true ∨ ∃ rest, es' = es ++ rest ∧
        Walk (Store.after calls') oracle projectId start es fin ∧
        Walk (Store.after calls') oracle projectId fin rest fin') ∧
      (fin.forksDetected = true → fin'.forksDetected = true) := by
  obtain ⟨start, es, hstart, hwalk, -, -⟩ := resolveProject_ok.mp h
  obtain ⟨start', es', hstart', hwalk', -, hend⟩ := resolveProject_ok.mp h'
  have hsame := genesisState_of_holds hholds hstart
  obtain rfl : start' = start := Except.ok.inj (hstart'.symm.trans hsame)
  obtain ⟨_, -, -, -, -, -, hvalid, -, heq⟩ := genesisState_ok.mp hstart
  have hquiet : start'.forksDetected = false := by rw [heq]
  have hcontinues := hwalk.continues hholds (Store.indexed_after hfree)
    (Store.indexed_after hfree') hwalk' hend hvalid hquiet
  refine ⟨start', es, es', hstart, hstart', hwalk, hwalk', ?_, fun hfork => ?_⟩
  · exact hcontinues.imp_right fun ⟨_, rest⟩ => rest
  · rcases hcontinues with hfork' | ⟨hnone, -⟩
    · exact hfork'
    · exact absurd (hnone.symm.trans hfork) Bool.false_ne_true

end

/-- A merge comes to a project. -/
theorem sample_history_continues :
    ∃ (calls calls' : List Store.Call) (oracle : IdentityOracle) (projectId : ObjectId)
      (fin fin' : ProjectState), fin.entries = 0 ∧ fin'.entries = 1 ∧
      @resolveProject .sample (@Store.after .sample calls) oracle projectId = .ok fin ∧
      @resolveProject .sample (@Store.after .sample calls') oracle projectId = .ok fin' ∧
      ∃ start es es',
        @genesisState .sample (@Store.after .sample calls) oracle projectId = .ok start ∧
        @genesisState .sample (@Store.after .sample calls') oracle projectId = .ok start ∧
        @Walk .sample (@Store.after .sample calls) oracle projectId start es fin ∧
        @Walk .sample (@Store.after .sample calls') oracle projectId start es' fin' ∧
        (fin'.forksDetected = true ∨ ∃ rest, es' = es ++ rest ∧
          @Walk .sample (@Store.after .sample calls') oracle projectId start es fin ∧
          @Walk .sample (@Store.after .sample calls') oracle projectId fin rest fin') ∧
        (fin.forksDetected = true → fin'.forksDetected = true) := by
  let := KeyPrimitives.sample
  have := lawfulKeys_sample
  obtain ⟨oracle, _, _, approver, _, p, h, -⟩ := exists_sample_merging
  have hnone : ∀ e ∈ [], Authored oracle approver (mergeAfter none p.genesis.id p.pr.id) e := nofun
  have hentries := List.forall_mem_singleton.mpr h.authored
  have hnodup : ((h.merging.objects []).map Object.id).Nodup := by
    refine h.nodup.sublist (List.Sublist.map _ ?_)
    exact List.Sublist.append_left (List.nil_sublist [p.entry]) _
  have hpublic := h.merging.isPublic hnone
  have hpublic' := h.merging.isPublic hentries
  have hresolve := h.merging.resolve_nil hnone hnodup rfl
  obtain ⟨e, -, fin, -, hadvances, hresolve', -⟩ := h.merging.exists_resolve hentries h.nodup
    (by simp) nofun
  have hholds : Holds (Store.after ((h.merging.objects [p.entry]).map .insert))
      (Store.after ((h.merging.objects []).map .insert)) := by
    intro id o hget
    obtain ⟨ho, hid⟩ := (Store.get_inserted_iff hpublic hnodup).mp hget
    refine (Store.get_inserted_iff hpublic' h.nodup).mpr ⟨?_, hid⟩
    exact List.mem_append_left _ (by simpa [Merging.objects] using ho)
  exact ⟨_, _, oracle, p.genesis.id, _, fin, rfl, hadvances.entries_eq, hresolve, hresolve',
    history_continues (Store.collisionFree_inserts hpublic hnodup)
      (Store.collisionFree_inserts hpublic' h.nodup) hholds hresolve hresolve'⟩

end Mininet.Forge

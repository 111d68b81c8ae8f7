import Mininet.Forge.Release

/-!
# Forks

A fork is reported when two valid entries were found at one tip of the walk. They are told apart by
their identifiers, which cover the signature lists: two entries may be one that was signed once and
stored under two lists of signatures.
-/

namespace Mininet.Forge

open Codec Fallible Identity Objects

section

variable [KeyPrimitives]

/-- Two valid entries at one tip of the walk that are related in some way. -/
def Compete (s : Store) (oracle : IdentityOracle) (projectId : ObjectId)
    (R : Object → Object → Prop) : Prop :=
  ∃ start es st, genesisState s oracle projectId = .ok start ∧ Walk s oracle projectId start es st ∧
    ∃ e e', ValidAt s oracle projectId st.policy st.tip e ∧
      ValidAt s oracle projectId st.policy st.tip e' ∧ R e e'

/-- Different things were signed. -/
def RealFork (s : Store) (oracle : IdentityOracle) (projectId : ObjectId) : Prop :=
  Compete s oracle projectId fun e e' => e.signingBytes ≠ e'.signingBytes

/-- One thing was signed and is stored with two lists of signatures. -/
def RepackagedFork (s : Store) (oracle : IdentityOracle) (projectId : ObjectId) : Prop :=
  Compete s oracle projectId fun e e' =>
    e.signingBytes = e'.signingBytes ∧ e.signatures ≠ e'.signatures

variable {s : Store} {oracle : IdentityOracle} {projectId : ObjectId}

variable {fin : ProjectState}

/-- The walk goes one way. -/
lemma Advances.unique {st st₁ st₂ : ProjectState} {e₁ e₂ : Object}
    (h₁ : Advances s oracle projectId st e₁ st₁) (h₂ : Advances s oracle projectId st e₂ st₂) :
    e₁ = e₂ ∧ st₁ = st₂ := by
  have hid := le_antisymm (h₂.greatest e₁ h₁.valid) (h₁.greatest e₂ h₂.valid)
  have hget := h₂.valid.get_eq
  rw [← hid] at hget
  have hstep := step_some.mpr ⟨e₁, h₁⟩
  rw [step_some.mpr ⟨e₂, h₂⟩] at hstep
  exact ⟨Except.ok.inj (h₁.valid.get_eq.symm.trans hget),
    (Option.some.inj (Except.ok.inj hstep)).symm⟩

/-- A walk that ends where nothing is valid passes every state that another reaches. -/
lemma Walk.passes {start st : ProjectState} {es es' : List Object}
    (h : Walk s oracle projectId start es st) (h' : Walk s oracle projectId start es' fin)
    (hend : ∀ e, ¬ ValidAt s oracle projectId fin.policy fin.tip e) :
    ∃ rest, Walk s oracle projectId st rest fin := by
  induction h generalizing es' with
  | nil st => exact ⟨es', h'⟩
  | cons hadvances _ ih =>
    cases h' with
    | nil => exact absurd hadvances.valid (hend _)
    | cons hadvances' hrest' =>
      obtain ⟨-, rfl⟩ := hadvances.unique hadvances'
      exact ih hrest'

/-- A fork that a walk reports comes from one of its tips. -/
lemma Walk.exists_of_forksDetected {start : ProjectState} {es : List Object}
    (h : Walk s oracle projectId start es fin) (hforks : fin.forksDetected = true) :
    start.forksDetected = true ∨ ∃ es st, Walk s oracle projectId start es st ∧
      ∃ e e', ValidAt s oracle projectId st.policy st.tip e ∧
        ValidAt s oracle projectId st.policy st.tip e' ∧ e' ≠ e := by
  induction h with
  | nil st => exact .inl hforks
  | @cons st st' fin e es hadvances _ ih =>
    rcases ih hforks with hfork | ⟨es', mid, hwalk, hcompete⟩
    · rcases hadvances.forks_iff.mp hfork with hfork | ⟨e', he', hne⟩
      · exact .inl hfork
      · exact .inr ⟨[], st, .nil st, e, e', hadvances.valid, he', hne⟩
    · exact .inr ⟨e :: es', mid, .cons hadvances hwalk, hcompete⟩

lemma forksDetected_iff_compete (h : resolveProject s oracle projectId = .ok fin) :
    fin.forksDetected = true ↔ Compete s oracle projectId fun e e' => e' ≠ e := by
  obtain ⟨start, es, hstart, hwalk, -, hend⟩ := resolveProject_ok.mp h
  constructor
  · intro hforks
    rcases hwalk.exists_of_forksDetected hforks with hfork | ⟨es', st, hwalk', hcompete⟩
    · obtain ⟨_, -, -, -, -, -, -, -, heq⟩ := genesisState_ok.mp hstart
      rw [heq] at hfork
      cases hfork
    · exact ⟨start, es', st, hstart, hwalk', hcompete⟩
  · rintro ⟨start', es', st, hstart', hwalk', e, e', he, he', hne⟩
    obtain rfl := Except.ok.inj (hstart.symm.trans hstart')
    obtain ⟨rest, hrest⟩ := hwalk'.passes hwalk hend
    cases hrest with
    | nil => exact absurd he (hend e)
    | @cons _ st' _ w _ hadvances hrest =>
      refine hrest.forksDetected (hadvances.forks_iff.mpr (.inr ?_))
      by_cases hw : e = w
      · exact ⟨e', he', hw ▸ hne⟩
      · exact ⟨e, he, hw⟩

/-- Entries that are stored are the same when they have the same signed bytes and signatures. -/
lemma eq_of_signingBytes {e e' : Object} (he : s.get e.id = .ok e) (he' : s.get e'.id = .ok e')
    (hbytes : e.signingBytes = e'.signingBytes) (hsigs : e.signatures = e'.signatures) : e = e' := by
  obtain ⟨hportable, -, -⟩ := Store.get_ok.mp he
  obtain ⟨hportable', -, -⟩ := Store.get_ok.mp he'
  have hsame : e.toBytes = e'.toBytes := by rw [Object.toBytes, Object.toBytes, hbytes, hsigs]
  have hid : e'.id = e.id := by rw [hportable.id_eq, hportable'.id_eq, hsame]
  rw [hportable.eq_of_toBytes hsame, hid]

lemma compete_ne_iff :
    (Compete s oracle projectId fun e e' => e' ≠ e) ↔
      RealFork s oracle projectId ∨ RepackagedFork s oracle projectId := by
  constructor
  · rintro ⟨start, es, st, hstart, hwalk, e, e', he, he', hne⟩
    by_cases hbytes : e.signingBytes = e'.signingBytes
    · refine .inr ⟨start, es, st, hstart, hwalk, e, e', he, he', hbytes, fun hsigs => hne ?_⟩
      exact (eq_of_signingBytes he.get_eq he'.get_eq hbytes hsigs).symm
    · exact .inl ⟨start, es, st, hstart, hwalk, e, e', he, he', hbytes⟩
  · rintro (⟨start, es, st, hstart, hwalk, e, e', he, he', hbytes⟩ |
      ⟨start, es, st, hstart, hwalk, e, e', he, he', -, hsigs⟩)
    · exact ⟨start, es, st, hstart, hwalk, e, e', he, he', fun h => hbytes (h ▸ rfl)⟩
    · exact ⟨start, es, st, hstart, hwalk, e, e', he, he', fun h => hsigs (h ▸ rfl)⟩

/-- A fork is reported exactly when it is real or an entry was stored with two lists of signatures.
So every report of a project is of a real fork exactly when there is one whenever an entry was stored
twice; and a release is refused for a fork in the same cases. -/
theorem forksDetected_iff (s : Store) (oracle : IdentityOracle) (projectId : ObjectId) :
    (∀ fin, resolveProject s oracle projectId = .ok fin →
      (fin.forksDetected = true ↔
        RealFork s oracle projectId ∨ RepackagedFork s oracle projectId) ∧
      ((fin.forksDetected = true → RealFork s oracle projectId) ↔
        (RepackagedFork s oracle projectId → RealFork s oracle projectId))) ∧
    ∀ releaseId branch policy,
      verifyGovernedRelease s oracle releaseId projectId branch policy = .error .forkDetected ↔
        policy.validateForAdoption = .ok () ∧
          (∃ fin, resolveProject s oracle projectId = .ok fin) ∧
          (RealFork s oracle projectId ∨ RepackagedFork s oracle projectId) := by
  have hiff : ∀ fin, resolveProject s oracle projectId = .ok fin → (fin.forksDetected = true ↔
      RealFork s oracle projectId ∨ RepackagedFork s oracle projectId) :=
    fun fin h => (forksDetected_iff_compete h).trans compete_ne_iff
  refine ⟨fun fin h => ⟨hiff fin h, ?_⟩, fun releaseId branch policy => ?_⟩
  · rw [hiff fin h]
    exact ⟨fun hreal hrepackaged => hreal (.inr hrepackaged), fun hreal h => h.elim id hreal⟩
  · rw [verifyGovernedRelease_eq_forkDetected]
    constructor
    · rintro ⟨hpolicy, fin, hfin, hforks⟩
      exact ⟨hpolicy, ⟨fin, hfin⟩, (hiff fin hfin).mp hforks⟩
    · rintro ⟨hpolicy, ⟨fin, hfin⟩, hforks⟩
      exact ⟨hpolicy, fin, hfin, (hiff fin hfin).mpr hforks⟩

end

/-- A sample project with its entry stored under two lists of signatures. -/
lemma exists_sample_repackagedEntry :
    ∃ oracle policy author approver genesis tree commit pr approval entry entry',
      ∃ h : @Merging .sample oracle policy none author approver genesis tree commit pr approval,
        (∀ e ∈ [entry, entry'],
          @Authored .sample oracle approver (mergeAfter none genesis.id pr.id) e) ∧
        entry'.signingBytes = entry.signingBytes ∧ entry'.signatures ≠ entry.signatures ∧
        ((@Merging.objects .sample _ _ _ _ _ _ _ _ _ _ h [entry, entry']).map Object.id).Nodup := by
  let := KeyPrimitives.sample
  obtain ⟨oracle, policy, author, approver, _, p, h, hrepackaged, hnodup⟩ := exists_sample_merging
  refine ⟨oracle, policy, author, approver, p.genesis, p.tree, p.commit, p.pr, p.approval, p.entry,
    p.entry.repackaged (WitnessJournal.sampleSurplus 7), h.merging, ?_, rfl, fun heq => ?_, hnodup⟩
  · simp only [List.mem_cons, List.not_mem_nil, or_false]
    rintro e (rfl | rfl)
    exacts [h.authored, hrepackaged]
  · have hlength := congrArg List.length heq
    simp [Object.repackaged, Object.identified] at hlength

/-- The report is of the entry that was stored twice. -/
theorem sample_forksDetected :
    ∃ (s : Store) (oracle : IdentityOracle) (projectId : ObjectId) (fin : ProjectState),
      @resolveProject .sample s oracle projectId = .ok fin ∧ fin.forksDetected = true ∧
      ((fin.forksDetected = true ↔
          @RealFork .sample s oracle projectId ∨ @RepackagedFork .sample s oracle projectId) ∧
        ((fin.forksDetected = true → @RealFork .sample s oracle projectId) ↔
          (@RepackagedFork .sample s oracle projectId → @RealFork .sample s oracle projectId))) := by
  let := KeyPrimitives.sample
  have := lawfulKeys_sample
  obtain ⟨oracle, _, _, _, genesis, _, _, _, _, entry, entry', h, hentries, -, hsigs, hnodup⟩ :=
    exists_sample_repackagedEntry
  obtain ⟨e, he, fin, -, -, hresolve, hforks⟩ := h.exists_resolve hentries hnodup (by simp) nofun
  have hother : ∃ e' ∈ [entry, entry'], e' ≠ e := by
    by_cases heq : entry = e
    · exact ⟨entry', by simp, fun h' => hsigs (by rw [h', heq])⟩
    · exact ⟨entry, by simp, heq⟩
  exact ⟨_, oracle, genesis.id, fin, hresolve, hforks.mpr hother,
    (forksDetected_iff _ oracle genesis.id).1 fin hresolve⟩

/-- A third party adds a signature that no key made to the entry of a project: a fork is reported
where there is none, and no release of the project is adopted. -/
theorem sample_fork_not_real :
    ∃ (os os' : List Object) (oracle : IdentityOracle) (projectId : ObjectId)
      (fin fin' : ProjectState),
      (∀ o ∈ os', @Object.fromBytes .sample o.toBytes = .ok o) ∧
      (∃ entry entry', os' = os ++ [entry'] ∧ entry ∈ os ∧
        entry'.signingBytes = entry.signingBytes) ∧
      @resolveProject .sample (@Store.after .sample (os.map .insert)) oracle projectId = .ok fin ∧
      fin.forksDetected = false ∧
      @resolveProject .sample (@Store.after .sample (os'.map .insert)) oracle projectId = .ok fin' ∧
      fin'.forksDetected = true ∧
      ¬ @RealFork .sample (@Store.after .sample (os'.map .insert)) oracle projectId ∧
      ∀ releaseId branch, @verifyGovernedRelease .sample (@Store.after .sample (os'.map .insert))
        oracle releaseId projectId branch ⟨2, 3600000, 0⟩ = .error .forkDetected := by
  let := KeyPrimitives.sample
  have := lawfulKeys_sample
  obtain ⟨oracle, _, _, _, genesis, _, _, _, _, entry, entry', h, hentries, hbytes, hsigs, hnodup⟩ :=
    exists_sample_repackagedEntry
  have hfirst := fun e (he : e ∈ [entry]) => hentries e (List.mem_cons.mpr (.inl (by simpa using he)))
  have hnodup' : ((h.objects [entry]).map Object.id).Nodup :=
    hnodup.sublist (List.Sublist.map _ (List.Sublist.append_left (by simp) _))
  obtain ⟨e, he, fin, -, -, hresolve, hquiet⟩ := h.exists_resolve hfirst hnodup' (by simp) nofun
  obtain ⟨e', he', fin', hstart, hadvances, hresolve', hforks⟩ :=
    h.exists_resolve hentries hnodup (by simp) nofun
  have hother : ∃ x ∈ [entry, entry'], x ≠ e' := by
    by_cases heq : entry = e'
    · exact ⟨entry', by simp, fun h' => hsigs (by rw [h', heq])⟩
    · exact ⟨entry, by simp, heq⟩
  have hsame : ∀ x ∈ [entry, entry'], x.signingBytes = entry.signingBytes := by
    simp [hbytes]
  refine ⟨h.objects [entry], h.objects [entry, entry'], oracle, genesis.id, fin, fin',
    fun o ho => Object.fromBytes_ok.mpr ⟨rfl, (h.isPublic hentries o ho).portable⟩,
    ⟨entry, entry', by simp [Merging.objects], by simp [Merging.objects], hbytes⟩, hresolve, ?_,
    hresolve', hforks.mpr hother, ?_, fun releaseId branch => ?_⟩
  · refine Bool.eq_false_of_not_eq_true fun hfork => ?_
    obtain ⟨x, hx, hne⟩ := hquiet.mp hfork
    exact hne ((List.mem_singleton.mp hx).trans (List.mem_singleton.mp he).symm)
  · rintro ⟨start, es, st, hstart', hwalk, x, y, hx, hy, hne⟩
    obtain rfl := Except.ok.inj (hstart.symm.trans hstart')
    cases hwalk with
    | nil =>
      exact hne ((hsame x ((h.validAt_iff hentries hnodup).mp hx)).trans
        (hsame y ((h.validAt_iff hentries hnodup).mp hy)).symm)
    | cons hfirst hrest =>
      obtain ⟨rfl, rfl⟩ := hfirst.unique hadvances
      obtain ⟨_, _, -, -, -, hend⟩ := resolveProject_ok.mp hresolve'
      cases hrest with
      | nil => exact hend x hx
      | cons hnext _ => exact hend _ hnext.valid
  · exact verifyGovernedRelease_eq_forkDetected.mpr ⟨by decide, fin', hresolve', hforks.mpr hother⟩

end Mininet.Forge

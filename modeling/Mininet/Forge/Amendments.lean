import Mininet.Forge.Members

/-!
# Amending the policy

An amendment is recorded by a maintainer, whose own approval does not count. So the maintainers can
approve one exactly when the policy asks for fewer approvals than there are maintainers.
-/

namespace Mininet.Forge

open Codec Fallible Identity Objects List
open Controller (SampleMember)

lemma exists_of_forall₂ {α β : Type} {R : α → β → Prop} {as : List α} {bs : List β}
    (h : List.Forall₂ R as bs) {a : α} (ha : a ∈ as) : ∃ b ∈ bs, R a b := by
  induction h with
  | nil => cases ha
  | cons hab _ ih =>
    rcases mem_cons.mp ha with rfl | ha
    · exact ⟨_, mem_cons_self, hab⟩
    · obtain ⟨b, hb, hr⟩ := ih ha
      exact ⟨b, mem_cons_of_mem _ hb, hr⟩

section

variable [KeyPrimitives]

/-- The first maintainer records an amendment, and all the others approve it. -/
structure Proposed (devices : Did → Controller) (projectId tip : ObjectId) (policy newPolicy : Policy)
    (e : Object) (approvals : List Object) : Prop where
  signed : ∃ recorder others b, policy.maintainers = recorder :: others ∧
    amend projectId tip newPolicy 0 0 = .ok b ∧ b.sign recorder (devices recorder) = .ok e ∧
    List.Forall₂ (fun m a => (approve e.id e.id true 0 0).sign m (devices m) = .ok a) others
      approvals

section

variable {s : Store} {oracle : IdentityOracle} {projectId : ObjectId}

/-- The approvers are other maintainers than the recorder. -/
lemma card_approvers_lt {target reviewed : ObjectId} {policy : Policy} {author : Did}
    (hauthor : author ∈ policy.maintainers) :
    (approvers s oracle target reviewed policy author).card < policy.maintainers.length := by
  have hsub : approvers s oracle target reviewed policy author ⊂ policy.maintainers.toFinset := by
    refine Finset.ssubset_iff_subset_ne.mpr ⟨fun m hm => ?_, fun heq => ?_⟩
    · exact mem_toFinset.mpr (mem_approvers.mp hm).1
    · have hmem := heq ▸ mem_toFinset.mpr hauthor
      exact (mem_approvers.mp hmem).2.1 rfl
  exact (Finset.card_lt_card hsub).trans_le (toFinset_card_le _)

variable [LawfulKeys]

lemma valid_of_get {id : ObjectId} {o : Object} (h : s.get id = .ok o) : id.Valid := by
  obtain ⟨hportable, rfl, -⟩ := Store.get_ok.mp h
  rw [hportable.id_eq]
  exact ObjectId.valid_of _

lemma Walk.tip_valid {st fin : ProjectState} {es : List Object}
    (h : Walk s oracle projectId st es fin) (hvalid : st.tip.Valid) : fin.tip.Valid := by
  induction h with
  | nil st => exact hvalid
  | cons hadvances _ ih =>
    refine ih ?_
    rw [hadvances.tip_eq]
    exact valid_of_get hadvances.valid.get_eq

end

section

variable [LawfulKeys] {oracle : IdentityOracle} {projectId tip : ObjectId}
  {policy newPolicy : Policy} {devices : Did → Controller}
  (hvouched : ∀ m ∈ policy.maintainers, Vouched oracle m (devices m))
  (hproject : projectId.Valid) (htip : tip.Valid) (hnew : newPolicy.Valid)
  (hdids : ∀ m ∈ newPolicy.maintainers, m.Valid) {approvals : List Object} {e : Object}
include hvouched hproject htip hnew hdids

/-- What is proposed, as it is stored and read. -/
lemma Proposed.authored (h : Proposed devices projectId tip policy newPolicy e approvals) :
    ∃ recorder others b, policy.maintainers = recorder :: others ∧
      amend projectId tip newPolicy 0 0 = .ok b ∧ Authored oracle recorder b e ∧
      List.Forall₂ (fun m a => Authored oracle m (approve e.id e.id true 0 0) a) others
        approvals := by
  obtain ⟨recorder, others, b, hmaintainers, hb, he, happrovals⟩ := h.signed
  rw [hmaintainers] at hvouched
  obtain ⟨hrecorder, hothers⟩ := forall_mem_cons.mp hvouched
  obtain ⟨b', hb', hsignable⟩ := exists_amend hproject htip hnew hdids 0 0
  obtain rfl := Except.ok.inj (hb.symm.trans hb')
  have hauthored := hrecorder.authored hsignable he
  have hid : e.id.Valid := by
    rw [hauthored.portable.id_eq]
    exact ObjectId.valid_of _
  refine ⟨recorder, others, b, hmaintainers, hb, hauthored, ?_⟩
  refine forall₂_iff_get.mpr ⟨happrovals.length_eq, fun i hi hi' => ?_⟩
  exact (hothers _ (get_mem _ _)).authored (signable_approve hid hid true 0 0)
    (happrovals.get hi hi')

lemma exists_proposed (hne : policy.maintainers ≠ []) :
    ∃ e approvals, Proposed devices projectId tip policy newPolicy e approvals := by
  obtain ⟨recorder, others, hmaintainers⟩ := exists_cons_of_ne_nil hne
  rw [hmaintainers] at hvouched
  obtain ⟨hrecorder, hothers⟩ := forall_mem_cons.mp hvouched
  obtain ⟨b, hb, hsignable⟩ := exists_amend hproject htip hnew hdids 0 0
  obtain ⟨e, he⟩ := hrecorder.exists_sign hsignable
  have hid : e.id.Valid := by
    rw [(hrecorder.authored hsignable he).portable.id_eq]
    exact ObjectId.valid_of _
  have happrovals : ∀ ms, (∀ m ∈ ms, Vouched oracle m (devices m)) → ∃ approvals,
      List.Forall₂ (fun m a => (approve e.id e.id true 0 0).sign m (devices m) = .ok a) ms
        approvals := by
    intro ms
    induction ms with
    | nil => exact fun _ => ⟨[], .nil⟩
    | cons m ms ih =>
      intro hms
      obtain ⟨hm, hms⟩ := forall_mem_cons.mp hms
      obtain ⟨a, ha⟩ := hm.exists_sign (signable_approve hid hid true 0 0)
      obtain ⟨rest, hrest⟩ := ih hms
      exact ⟨a :: rest, .cons ha hrest⟩
  obtain ⟨approvals, happrovals⟩ := happrovals others hothers
  exact ⟨e, approvals, recorder, others, b, hmaintainers, hb, he, happrovals⟩

/-- A proposal is valid when the policy asks for fewer approvals than there are maintainers. -/
lemma Proposed.validAt
    (h : Proposed devices projectId tip policy newPolicy e approvals) (hvalid : policy.Valid)
    (hmin : policy.minApprovals.toNat < policy.maintainers.length) {calls : List Store.Call}
    (hfree : Store.CollisionFree (calls ++ (e :: approvals).map .insert)) :
    ValidAt (Store.after (calls ++ (e :: approvals).map .insert)) oracle projectId policy tip e ∧
      parseChainEntryPayloadStrict e = some (.amend newPolicy) := by
  obtain ⟨recorder, others, b, hmaintainers, hb, he, happrovals⟩ :=
    h.authored hvouched hproject htip hnew hdids
  obtain ⟨⟨⟩, -, hb⟩ := bind_ok.mp hb
  cases hb
  have hnodup := hvalid.nodup
  rw [hmaintainers] at hnodup
  obtain ⟨hrecorder, hothers⟩ := nodup_cons.mp hnodup
  have happroval : ∀ a ∈ approvals, ∃ m ∈ others,
      Authored oracle m (approve e.id e.id true 0 0) a := by
    intro a ha
    obtain ⟨m, hm, hauthored⟩ := exists_of_forall₂ happrovals.flip ha
    exact ⟨m, hm, hauthored⟩
  have hpublic : ∀ o ∈ e :: approvals, Store.Public o := by
    refine forall_mem_cons.mpr ⟨he.isPublic rfl, fun a ha => ?_⟩
    obtain ⟨m, -, hauthored⟩ := happroval a ha
    exact hauthored.isPublic rfl
  have hauthors : approvals.map Object.authorHuman = others := by
    clear hpublic happroval hfree h hothers hrecorder hnodup hmaintainers
    induction happrovals with
    | nil => rfl
    | cons hauthored _ ih => rw [map_cons, hauthored.authorHuman_eq, ih]
  have hdistinct : (e :: approvals).Nodup := by
    refine nodup_cons.mpr ⟨fun hmem => ?_, ?_⟩
    · obtain ⟨m, -, hauthored⟩ := happroval e hmem
      have htype := hauthored.objectType_eq.symm.trans he.objectType_eq
      simp [approve, approveType, chainType] at htype
    · exact List.Nodup.of_map Object.authorHuman (hauthors ▸ hothers)
  have hids := Store.nodup_ids hpublic hfree hdistinct
  have hget := fun {o} => Store.get_inserted hpublic calls hids (o := o)
  have hindexed := Store.indexed_after hfree
  have hid : e.id.Valid := valid_of_get (hget mem_cons_self)
  have hparse : parseChainEntryPayloadStrict e = some (.amend newPolicy) := by
    refine parseChainEntry_eq_amend.mpr ⟨he.payload_eq, hnew, fun m hm => ?_⟩
    obtain ⟨hm, hlength⟩ := ObjectBuilder.portable_did (hdids m hm)
    exact ⟨hm, hlength.trans (by decide)⟩
  have hprev : ⟨"prev", tip⟩ ∈ e.links := by
    rw [he.links_eq]
    simp
  have hprojectLink : ⟨"project", projectId⟩ ∈ e.links := by
    rw [he.links_eq]
    simp
  have happrovers : others.toFinset ⊆ approvers
      (Store.after (calls ++ (e :: approvals).map .insert)) oracle e.id e.id policy
        e.authorHuman := by
    intro m hm
    rw [mem_toFinset] at hm
    obtain ⟨a, ha, hauthored⟩ := exists_of_forall₂ happrovals hm
    have hstored := hget (mem_cons_of_mem e ha)
    refine mem_approvers.mpr ⟨hmaintainers ▸ mem_cons_of_mem _ hm, ?_, a, hstored,
      (hindexed _ _ hstored _).mpr ?_, hauthored.objectType_eq, ?_, hauthored.authorHuman_eq,
      hauthored.verified⟩
    · rw [he.authorHuman_eq]
      exact fun heq => hrecorder (heq ▸ hm)
    · rw [hauthored.links_eq]
      exact mem_singleton_self _
    · refine (parseStrict_some decodes_approvalPayload).mpr ⟨hauthored.payload_eq, ?_, _, hid⟩
      exact (ObjectId.scidText_of_valid hid).length_le.trans (by decide)
  have hstored := hget (mem_cons_self (a := e))
  refine ⟨⟨hstored, (hindexed _ _ hstored _).mpr (mem_map.mpr ⟨_, hprev, rfl⟩),
    isEntryAfter_iff.mpr ⟨he.objectType_eq, hprev, hprojectLink, ?_, he.verified⟩,
    (entryIsValid_iff hvalid).mpr (.inr ⟨newPolicy, hparse, ?_⟩)⟩, hparse⟩
  · rw [he.authorHuman_eq, hmaintainers]
    exact mem_cons_self
  · have hcard := Finset.card_le_card happrovers
    rw [toFinset_card_of_nodup hothers] at hcard
    rw [hmaintainers, length_cons] at hmin
    omega

end

/-- The policy at a tip can be amended, to any policy, exactly when it asks for fewer approvals than
it has maintainers. -/
theorem amendable_iff [LawfulKeys] {calls : List Store.Call} {oracle : IdentityOracle}
    {projectId : ObjectId} {start st : ProjectState} {es : List Object}
    (hstart : genesisState (Store.after calls) oracle projectId = .ok start)
    (hwalk : Walk (Store.after calls) oracle projectId start es st) {devices : Did → Controller}
    (hvouched : ∀ m ∈ st.policy.maintainers, Vouched oracle m (devices m)) {newPolicy : Policy}
    (hnew : validPolicy newPolicy = .ok ()) (hdids : ∀ m ∈ newPolicy.maintainers, m.Valid)
    (hfree : ∀ e approvals, Proposed devices projectId st.tip st.policy newPolicy e approvals →
      Store.CollisionFree (calls ++ (e :: approvals).map .insert)) :
    (∃ (e : Object) (approvals : List Object),
      ValidAt (Store.after (calls ++ (e :: approvals).map .insert)) oracle projectId st.policy st.tip
        e ∧ parseChainEntryPayloadStrict e = some (.amend newPolicy)) ↔
      st.policy.minApprovals.toNat < st.policy.maintainers.length := by
  obtain ⟨genesis, hgenesis, -, -, -, -, hstartValid, -, hstartEq⟩ := genesisState_ok.mp hstart
  have hvalid := hwalk.policy_valid hstartValid
  have hproject := valid_of_get hgenesis
  have htip : st.tip.Valid := hwalk.tip_valid (by rw [hstartEq]; exact hproject)
  constructor
  · rintro ⟨e, approvals, he, hparse⟩
    rcases (entryIsValid_iff hvalid).mp he.valid with ⟨hmerge, -⟩ | ⟨p, -, hquorum⟩
    · rw [hparse] at hmerge
      cases hmerge
    · exact hquorum.trans_lt (card_approvers_lt (isEntryAfter_iff.mp he.after).recorder)
  · intro hmin
    have hnewValid := validPolicy_ok.mp hnew
    obtain ⟨e, approvals, hproposed⟩ := exists_proposed hvouched hproject htip hnewValid hdids
      (fun hnil => hvalid.length_pos (by rw [hnil]; rfl))
    exact ⟨e, approvals, hproposed.validAt hvouched hproject htip hnewValid hdids hvalid hmin
      (hfree e approvals hproposed)⟩

end

variable {oracle : IdentityOracle}

/-- A project of a policy, by a member of it. -/
lemma exists_sample_project {a : Did} {device : Controller}
    (h : @Vouched .sample oracle a device) {policy : Policy} (hvalid : policy.Valid)
    (hdids : ∀ m ∈ policy.maintainers, @Did.Valid KeyPrimitives.sample.toPrimitives m) :
    ∃ (builder : ObjectBuilder) (genesis : Object), project "p" policy = .ok builder ∧
      @ObjectBuilder.sign .sample builder a device = .ok genesis ∧ @Store.Public .sample genesis ∧
      ∀ s, @Store.get .sample s genesis.id = .ok genesis →
        @genesisState .sample s oracle genesis.id = .ok ⟨"p", policy, [], genesis.id, 0, false⟩ := by
  let := KeyPrimitives.sample
  have := lawfulKeys_sample
  have hname : validName "p" = true := by decide
  obtain ⟨builder, hbuilder, hsignable⟩ := exists_project hname hvalid hdids
  obtain ⟨genesis, hsign⟩ := h.exists_sign hsignable
  have hauthored := h.authored hsignable hsign
  refine ⟨builder, genesis, hbuilder, hsign, hauthored.isPublic ?_, fun s hget => ?_⟩
  all_goals obtain ⟨-, rfl⟩ := project_ok hbuilder
  · rfl
  · refine genesisState_ok.mpr ⟨genesis, hget, hauthored.objectType_eq, hauthored.verified,
      hauthored.payload_eq, hname, hvalid, fun m hm => ?_, rfl⟩
    obtain ⟨hm, hlength⟩ := ObjectBuilder.portable_did (hdids m hm)
    exact ⟨hm, hlength.trans (by decide)⟩

/-- What two maintainers make who turn their policy around. -/
def sampleAmendment [KeyPrimitives] (a b : SampleMember) : Option (List Object) := do
  let builder ← (project "p" ⟨1, [a.root.did, b.root.did]⟩).toOption
  let genesis ← (builder.sign a.root.did a.device).toOption
  let amendment ← (amend genesis.id genesis.id ⟨1, [b.root.did, a.root.did]⟩ 0 0).toOption
  let e ← (amendment.sign a.root.did a.device).toOption
  let x ← ((approve e.id e.id true 0 0).sign b.root.did b.device).toOption
  return [genesis, e, x]

/-- Two maintainers, what they make in the end not colliding. -/
def amendmentChecks [KeyPrimitives] : List SampleMember → Bool
  | [a, b] => (sampleAmendment a b).any fun os => decide (os.map Object.id).Nodup
  | _      => false

/-- What two maintainers propose does not collide with their project. -/
lemma sample_collisionFree {a b : SampleMember}
    (hcheck : @amendmentChecks .sample [a, b] = true) (hne : a.root.did ≠ b.root.did)
    {builder : ObjectBuilder} {genesis e : Object} {approvals : List Object}
    (hbuilder : project "p" ⟨1, [a.root.did, b.root.did]⟩ = .ok builder)
    (hgenesis : @ObjectBuilder.sign .sample builder a.root.did a.device = .ok genesis)
    (hpublic : @Store.Public .sample genesis)
    (hproposed : @Proposed .sample (fun m => if m = a.root.did then a.device else b.device)
      genesis.id genesis.id ⟨1, [a.root.did, b.root.did]⟩ ⟨1, [b.root.did, a.root.did]⟩ e approvals)
    (hauthored : ∃ recorder others builder, [a.root.did, b.root.did] = recorder :: others ∧
      amend genesis.id genesis.id ⟨1, [b.root.did, a.root.did]⟩ 0 0 = .ok builder ∧
      @Authored .sample oracle recorder builder e ∧ List.Forall₂ (fun m x =>
        @Authored .sample oracle m (approve e.id e.id true 0 0) x) others approvals) :
    @Store.CollisionFree .sample ([genesis].map .insert ++ (e :: approvals).map .insert) := by
  let := KeyPrimitives.sample
  obtain ⟨_, _, amendment, hmaintainers, hamendment, hsign, hsigns⟩ := hproposed.signed
  obtain ⟨rfl, rfl⟩ := List.cons.inj hmaintainers
  obtain ⟨_, _, amendment', hmaintainers', hamendment', he, happrovals⟩ := hauthored
  obtain ⟨rfl, rfl⟩ := List.cons.inj hmaintainers'
  obtain rfl := Except.ok.inj (hamendment.symm.trans hamendment')
  cases hsigns with
  | @cons _ x _ _ hx hrest =>
    cases hrest
    cases happrovals with
    | cons happroval _ =>
      rw [if_pos rfl] at hsign
      rw [if_neg hne.symm] at hx
      have hmade : sampleAmendment a b = some [genesis, e, x] := by
        simp [sampleAmendment, hbuilder, hgenesis, hamendment, hsign, hx, Except.toOption]
      rw [amendmentChecks, hmade, Option.any_some, decide_eq_true_eq] at hcheck
      obtain ⟨⟨⟩, -, hb⟩ := bind_ok.mp hamendment
      cases hb
      have hall : ∀ o ∈ [genesis, e, x], Store.Public o := by
        simp only [mem_cons, not_mem_nil, or_false]
        rintro o (rfl | rfl | rfl)
        exacts [hpublic, he.isPublic rfl, happroval.isPublic rfl]
      exact Store.collisionFree_inserts hall hcheck

lemma exists_sample_amending :
    ∃ a b : SampleMember, a.root.did ≠ b.root.did ∧
      @Vouched .sample (logsOf [a, b]) a.root.did a.device ∧
      @Vouched .sample (logsOf [a, b]) b.root.did b.device ∧
      @amendmentChecks .sample [a, b] = true := by
  let := KeyPrimitives.sample
  have := lawfulKeys_sample
  have hevaluates : evaluates [(0, 1), (4, 5)] amendmentChecks = true := by decide +kernel
  obtain ⟨team, hnodup, hteam, hcheck⟩ := exists_team hevaluates (by decide +kernel)
  match team, hcheck with
  | [a, b], hcheck =>
    exact ⟨a, b, by simpa using hnodup, (hteam a (by simp)).1, (hteam b (by simp)).1, hcheck⟩

/-- Two maintainers, one approval: the policy can be amended. -/
theorem sample_amendable :
    ∃ (calls : List Store.Call) (oracle : IdentityOracle) (projectId : ObjectId)
      (start : ProjectState) (newPolicy : Policy),
      @genesisState .sample (@Store.after .sample calls) oracle projectId = .ok start ∧
      start.policy.minApprovals.toNat < start.policy.maintainers.length ∧
      ((∃ (e : Object) (approvals : List Object),
        @ValidAt .sample (@Store.after .sample (calls ++ (e :: approvals).map .insert)) oracle
          projectId start.policy start.tip e ∧
        @parseChainEntryPayloadStrict .sample e = some (.amend newPolicy)) ↔
        start.policy.minApprovals.toNat < start.policy.maintainers.length) := by
  let := KeyPrimitives.sample
  have := lawfulKeys_sample
  obtain ⟨a, b, hne, ha, hb, hcheck⟩ := exists_sample_amending
  have hpolicy : ∀ {a b : Did}, a ≠ b → (Policy.mk 1 [a, b]).Valid := by
    intro a b hne
    exact ⟨by simp, by simp [maxMaintainers], by simp, by simp, by simp [hne]⟩
  have hdids : ∀ m ∈ [a.root.did, b.root.did], m.Valid := by simp [ha.human_valid, hb.human_valid]
  obtain ⟨builder, genesis, hbuilder, hsign, hpublic, hgenesis⟩ :=
    exists_sample_project ha (hpolicy hne) hdids
  have hone : ∀ o ∈ [genesis], Store.Public o := forall_mem_singleton.mpr hpublic
  have hstart := hgenesis _ ((Store.get_inserted_iff hone (nodup_singleton _)).mpr
    ⟨mem_singleton_self _, rfl⟩)
  have hvouched : ∀ m ∈ [a.root.did, b.root.did],
      Vouched (logsOf [a, b]) m (if m = a.root.did then a.device else b.device) := by
    simp only [mem_cons, not_mem_nil, or_false]
    rintro m (rfl | rfl)
    · rw [if_pos rfl]
      exact ha
    · rw [if_neg hne.symm]
      exact hb
  have hdids' : ∀ m ∈ [b.root.did, a.root.did], m.Valid := by simp [ha.human_valid, hb.human_valid]
  have hproject : genesis.id.Valid := by
    rw [hpublic.portable.id_eq]
    exact ObjectId.valid_of _
  refine ⟨[genesis].map .insert, logsOf [a, b], genesis.id, _, ⟨1, [b.root.did, a.root.did]⟩, hstart,
    by simp, amendable_iff hstart (.nil _) hvouched (validPolicy_ok.mpr (hpolicy hne.symm)) hdids'
      fun e approvals hproposed => ?_⟩
  have hauthored := hproposed.authored hvouched hproject hproject (hpolicy hne.symm) hdids'
  exact sample_collisionFree hcheck hne hbuilder hsign hpublic hproposed hauthored

/-- A project of one maintainer, whose policy is accepted and can never be amended. -/
theorem sample_not_amendable :
    ∃ (calls : List Store.Call) (oracle : IdentityOracle) (projectId : ObjectId)
      (start : ProjectState) (device : Controller), validPolicy start.policy = .ok () ∧
      @genesisState .sample (@Store.after .sample calls) oracle projectId = .ok start ∧
      (∀ m ∈ start.policy.maintainers, @Vouched .sample oracle m device) ∧
      ∀ (s : Store) (e : Object) (newPolicy : Policy),
        @isEntryAfter .sample oracle projectId start.policy start.tip e = true →
        @parseChainEntryPayloadStrict .sample e = some (.amend newPolicy) →
        @entryIsValid .sample s oracle projectId e start.policy = .ok false := by
  let := KeyPrimitives.sample
  have := lawfulKeys_sample
  obtain ⟨m, _, -, h, -⟩ := exists_sample_amending
  have hpolicy : (Policy.mk 1 [m.root.did]).Valid :=
    ⟨by simp, by simp [maxMaintainers], by simp, by simp, by simp⟩
  obtain ⟨-, genesis, -, -, hpublic, hgenesis⟩ := exists_sample_project h hpolicy
    (forall_mem_singleton.mpr h.human_valid)
  have hstart := hgenesis _ ((Store.get_inserted_iff (forall_mem_singleton.mpr hpublic)
    (nodup_singleton _)).mpr ⟨mem_singleton_self _, rfl⟩)
  refine ⟨_, _, genesis.id, _, m.device, validPolicy_ok.mpr hpolicy, hstart,
    forall_mem_singleton.mpr h, fun s e newPolicy hafter hparse => ?_⟩
  obtain ⟨valid, hvalid⟩ := exists_entryIsValid s _ genesis.id e ⟨1, [m.root.did]⟩
  cases valid with
  | false => exact hvalid
  | true =>
    rcases (entryIsValid_iff hpolicy).mp hvalid with ⟨hmerge, -⟩ | ⟨p, -, hquorum⟩
    · rw [hparse] at hmerge
      cases hmerge
    · have hlt := hquorum.trans_lt (card_approvers_lt (isEntryAfter_iff.mp hafter).recorder)
      exact absurd hlt (by simp)

end Mininet.Forge

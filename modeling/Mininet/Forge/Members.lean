import Mininet.Forge.Merges
import Mininet.Store.Index

/-!
# What members author

The objects of a project are made by devices that the caller vouches for. What such a device signs
within the limits is stored, read back and verified, so that the objects of a proposal can be built
for given members and a given tip.
-/

namespace Mininet.Forge

open Codec Fallible Identity Objects List
open Controller (SampleMember sampleMember)

/-! ### Builders -/

/-- What creating a project signs. -/
def project (name : String) (policy : Policy) : Except ForgeError ObjectBuilder := do
  failIf (¬ validName name) .badName
  validPolicy policy
  return {
    objectType := .custom projectType
    payload := .pub (framed UInt32 (utf8 name) ++ encodePolicy policy) }

/-- What proposing to move a branch signs. -/
def propose (projectId : ObjectId) (branch title : String) (head base : ObjectId)
    (timestampMs sequence : UInt64) : Except ForgeError ObjectBuilder := do
  failIf (¬ validName branch) .badName
  failIf (maxTitleBytes < (utf8 title).length ∨ maxVersionBytes < (utf8 branch).length)
    .fieldTooLarge
  return {
    objectType := .custom prType
    timestampMs
    sequence
    links := [⟨"project", projectId⟩, ⟨"head", head⟩, ⟨"base", base⟩]
    payload := .pub (framed UInt32 (utf8 branch) ++ framed UInt32 (utf8 title)) }

lemma project_ok {name : String} {policy : Policy} {b : ObjectBuilder}
    (h : project name policy = .ok b) : validName name = true ∧ b =
      { objectType := .custom projectType
        payload := .pub (framed UInt32 (utf8 name) ++ encodePolicy policy) } := by
  obtain ⟨hname, h⟩ := failIf_bind_ok.mp h
  obtain ⟨⟨⟩, -, h⟩ := bind_ok.mp h
  cases h
  exact ⟨not_not.mp hname, rfl⟩

lemma propose_ok {projectId head base : ObjectId} {branch title : String}
    {timestampMs sequence : UInt64} {b : ObjectBuilder}
    (h : propose projectId branch title head base timestampMs sequence = .ok b) : b =
      { objectType := .custom prType
        timestampMs
        sequence
        links := [⟨"project", projectId⟩, ⟨"head", head⟩, ⟨"base", base⟩]
        payload := .pub (framed UInt32 (utf8 branch) ++ framed UInt32 (utf8 title)) } := by
  obtain ⟨-, h⟩ := failIf_bind_ok.mp h
  obtain ⟨-, h⟩ := failIf_bind_ok.mp h
  cases h
  rfl

/-- What a verdict on a proposal or an amendment signs. -/
def approve (prId reviewedHead : ObjectId) (approve : Bool) (timestampMs sequence : UInt64) :
    ObjectBuilder where
  objectType := .custom approveType
  timestampMs := timestampMs
  sequence := sequence
  links := [⟨"pr", prId⟩]
  payload := .pub ([if approve then verdictApprove else 0] ++
    framed UInt32 (utf8 reviewedHead.asStr))

/-- What recording a merge signs. -/
def merge (projectId prev prId : ObjectId) (timestampMs sequence : UInt64) : ObjectBuilder where
  objectType := .custom chainType
  timestampMs := timestampMs
  sequence := sequence
  links := [⟨"project", projectId⟩, ⟨"prev", prev⟩, ⟨"pr", prId⟩]
  payload := .pub [entryMerge]

/-- What recording an amendment signs. -/
def amend (projectId prev : ObjectId) (newPolicy : Policy) (timestampMs sequence : UInt64) :
    Except ForgeError ObjectBuilder := do
  validPolicy newPolicy
  return {
    objectType := .custom chainType
    timestampMs
    sequence
    links := [⟨"project", projectId⟩, ⟨"prev", prev⟩]
    payload := .pub ([entryAmend] ++ encodePolicy newPolicy) }

section

variable [KeyPrimitives] {oracle : IdentityOracle} {policy : Policy} {o : Object}

/-- A builder within the limits. -/
structure Signable (b : ObjectBuilder) : Prop where
  objectType : b.objectType.Portable
  links_length : b.links.length ≤ maxLinks
  rels : ∀ rel ∈ b.links.map Link.rel, rel ≠ "" ∧ (utf8 rel).length ≤ maxRelBytes
  targets : ∀ id ∈ b.links.map Link.target, id.Valid
  payload : b.payload.bytes.length ≤ maxPayloadBytes

lemma length_encodePolicy_le [LawfulKeys] (hvalid : policy.Valid)
    (hdids : ∀ m ∈ policy.maintainers, m.Valid) : (encodePolicy policy).length ≤ 2 ^ 15 := by
  have hmember : ∀ n ∈ policy.maintainers.map fun m => (framed UInt32 (utf8 m.asStr)).length,
      n ≤ 260 := by
    intro n hn
    obtain ⟨m, hm, rfl⟩ := mem_map.mp hn
    have hlength := (ObjectBuilder.portable_did (hdids m hm)).2
    rw [Objects.maxDidBytes] at hlength
    simp only [framed, length_append, length_countBytes]
    change 4 + _ ≤ 260
    omega
  have hsum := sum_le_card_nsmul _ 260 hmember
  have hmax := hvalid.length_le
  rw [maxMaintainers] at hmax
  rw [length_map, smul_eq_mul] at hsum
  simp only [encodePolicy, length_append, length_toBeBytes, length_countBytes, length_flatMap]
  change 4 + (4 + _) ≤ 2 ^ 15
  omega

lemma exists_project [LawfulKeys] {name : String} (hname : validName name = true)
    (hvalid : policy.Valid) (hdids : ∀ m ∈ policy.maintainers, m.Valid) :
    ∃ b, project name policy = .ok b ∧ Signable b := by
  refine ⟨_, failIf_bind_ok.mpr ⟨not_not.mpr hname, bind_ok.mpr ⟨(),
    validPolicy_ok.mpr hvalid, rfl⟩⟩, ⟨by decide, by decide⟩, Nat.zero_le _, by simp, by simp, ?_⟩
  have hpolicy := length_encodePolicy_le hvalid hdids
  have htext := (validName_iff.mp hname).2.1
  simp only [Payload.bytes, framed, length_append, length_countBytes, maxPayloadBytes]
  change 4 + _ + _ ≤ _
  omega

lemma signable_approve [LawfulKeys] {prId reviewedHead : ObjectId} (hpr : prId.Valid)
    (hreviewed : reviewedHead.Valid) (verdict : Bool) (timestampMs sequence : UInt64) :
    Signable (approve prId reviewedHead verdict timestampMs sequence) := by
  refine ⟨⟨by decide, by decide⟩, by simp [approve, maxLinks], ?_, by simp [approve, hpr], ?_⟩
  · change ∀ rel ∈ ["pr"], rel ≠ "" ∧ (utf8 rel).length ≤ maxRelBytes
    decide
  · have htext := (ObjectId.scidText_of_valid hreviewed).length_le
    simp only [approve, Payload.bytes, framed, length_append, length_singleton,
      length_countBytes, maxPayloadBytes]
    change 1 + (4 + _) ≤ _
    omega

lemma exists_amend [LawfulKeys] {projectId prev : ObjectId} {newPolicy : Policy}
    (hproject : projectId.Valid) (hprev : prev.Valid) (hvalid : newPolicy.Valid)
    (hdids : ∀ m ∈ newPolicy.maintainers, m.Valid) (timestampMs sequence : UInt64) :
    ∃ b, amend projectId prev newPolicy timestampMs sequence = .ok b ∧ Signable b := by
  refine ⟨_, bind_ok.mpr ⟨(), validPolicy_ok.mpr hvalid, rfl⟩, ⟨by decide, by decide⟩,
    by simp [maxLinks], ?_, by simp [hproject, hprev], ?_⟩
  · change ∀ rel ∈ ["project", "prev"], rel ≠ "" ∧ (utf8 rel).length ≤ maxRelBytes
    decide
  · have hpolicy := length_encodePolicy_le hvalid hdids
    simp only [Payload.bytes, length_append, length_singleton, maxPayloadBytes]
    omega

/-! ### Devices -/

/-- A device that can sign, of a human whose delegation of it the caller vouches for. -/
structure Vouched (oracle : IdentityOracle) (human : Did) (device : Controller) : Prop where
  human_valid : human.Valid
  agrees : ∃ r, device.Agrees r
  current_ne : device.current ≠ []
  suite : ∀ k ∈ device.current, k.suite = .ed25519
  few : device.current.length ≤ maxSignatures
  device_eq : oracle device.did = some device.kel
  root : ∃ root, oracle human = some root ∧ root.did = human ∧
    ∃ caps, verifyDelegation root device.kel = .ok caps ∧ caps.contains .post = true ∧
      caps.contains .sign = true

/-- An object as a human made it, which everybody who asks the oracle accepts. -/
structure Authored (oracle : IdentityOracle) (human : Did) (b : ObjectBuilder) (o : Object) :
    Prop where
  portable : o.Portable
  verified : authorVerified oracle o = true
  authorHuman_eq : o.authorHuman = human
  objectType_eq : o.objectType = b.objectType
  links_eq : o.links = b.links
  payload_eq : o.payload = b.payload

lemma Authored.isPublic {human : Did} {b : ObjectBuilder}
    (h : Authored oracle human b o) (hpayload : b.payload.isEncrypted = false) : Store.Public o :=
  ⟨h.portable, by rw [h.payload_eq, hpayload]⟩

lemma authorVerified_true :
    authorVerified oracle o = true ↔ ∃ root device, oracle o.authorHuman = some root ∧
      oracle o.authorDevice = some device ∧ ∃ caps, verifyProvenance o root device = .ok caps := by
  rw [authorVerified]
  split
  next root device hroot hdevice =>
    rw [isOk_iff_exists]
    constructor
    · exact fun h => ⟨root, device, hroot, hdevice, h⟩
    · rintro ⟨root', device', hroot', hdevice', h⟩
      obtain rfl := Option.some.inj (hroot.symm.trans hroot')
      obtain rfl := Option.some.inj (hdevice.symm.trans hdevice')
      exact h
  next hnone =>
    refine ⟨nofun, ?_⟩
    rintro ⟨root, device, hroot, hdevice, -⟩
    exact absurd hdevice (hnone root device hroot)

section

variable [LawfulKeys] {oracle : IdentityOracle} {human : Did} {device : Controller}

variable {b : ObjectBuilder}

omit [LawfulKeys] in
lemma Vouched.did_valid (h : Vouched oracle human device) : device.did.Valid := by
  obtain ⟨r, hr⟩ := h.agrees
  exact Controller.valid_did_of_verify hr.verify_kel

/-- What a device signs within the limits is accepted. -/
lemma Vouched.authored (h : Vouched oracle human device) (hb : Signable b) {o : Object}
    (ho : b.sign human device = .ok o) : Authored oracle human b o := by
  have hportable : o.Portable := by
    refine (ObjectBuilder.portable_iff h.human_valid h.did_valid (fun l hl =>
      hb.targets _ (mem_map_of_mem hl)) ho).mpr ⟨fun name hname => ?_, fun l hl =>
      hb.rels _ (mem_map_of_mem hl), h.few⟩
    have htype := hb.objectType
    rwa [hname] at htype
  obtain ⟨r, hr⟩ := h.agrees
  have hsignature := ObjectBuilder.verifySignature_of_sign hr
    (h.few.trans_lt (by decide : maxSignatures < 2 ^ 32)) ho
  obtain ⟨root, hroot, hdid, caps, hcaps, hpost, hsign⟩ := h.root
  obtain ⟨-, -, -, key, -, sigs, -, rfl⟩ := ObjectBuilder.sign_ok.mp ho
  refine ⟨hportable, ?_, rfl, rfl, rfl, rfl⟩
  refine authorVerified_true.mpr ⟨root, device.kel, hroot, h.device_eq, caps, ?_⟩
  refine failIf_bind_ok.mpr ⟨not_not.mpr (congrArg Did.asStr hdid), ?_⟩
  refine bind_ok.mpr ⟨(), hsignature, bind_ok.mpr ⟨caps, mapError_ok.mpr hcaps, ?_⟩⟩
  refine failIf_bind_ok.mpr ⟨not_not.mpr ?_, rfl⟩
  have hrequired : ∀ t, requiredCapability t = .post ∨ requiredCapability t = .sign := by
    intro t
    cases t with
    | wellKnown tag =>
      simp only [requiredCapability]
      split_ifs
      · exact .inl rfl
      · exact .inr rfl
    | custom name => exact .inl rfl
  rcases hrequired b.objectType with heq | heq
  · exact (congrArg caps.contains heq).trans hpost
  · exact (congrArg caps.contains heq).trans hsign

omit [LawfulKeys] in
lemma Vouched.exists_sign (h : Vouched oracle human device) (hb : Signable b) :
    ∃ o, b.sign human device = .ok o :=
  ObjectBuilder.exists_sign human device hb.links_length (fun htype => by
    have hportable := hb.objectType
    rw [htype] at hportable
    exact hportable rfl) hb.payload h.current_ne h.suite

end

/-! ### A project with a proposal -/

/-- The objects of a project in which one member approves what another proposes: an empty tree, a
commit of it, and a proposal that may be based on something else than the project. -/
structure Merging (oracle : IdentityOracle) (policy : Policy) (stale : Option ObjectId)
    (author approver : Did) (genesis tree commit pr approval : Object) : Prop where
  valid : policy.Valid
  min_eq : policy.minApprovals = 1
  maintainers_valid : ∀ m ∈ policy.maintainers, m.Valid ∧ (utf8 m.asStr).length ≤ 4096
  maintains : approver ∈ policy.maintainers
  author_ne : approver ≠ author
  created : ∃ b, project "p" policy = .ok b ∧ Authored oracle approver b genesis
  built : Authored oracle approver
    { objectType := .custom treeType, payload := .pub (countBytes UInt32 0) } tree
  committed : Authored oracle approver
    { objectType := .commit, links := [⟨"tree", tree.id⟩], payload := .pub [2] } commit
  proposed : ∃ b, propose genesis.id "m" "!" commit.id (stale.getD genesis.id) 0 0 = .ok b ∧
    Authored oracle author b pr
  approved : Authored oracle approver (approve pr.id commit.id true 0 0) approval

/-- A merge that names another predecessor before the one it follows, or does not. -/
def mergeAfter (stale : Option ObjectId) (projectId prId : ObjectId) : ObjectBuilder :=
  let b := merge projectId projectId prId 0 0
  { b with links := (stale.toList.map fun id => ⟨"prev", id⟩) ++ b.links }

section

variable {oracle : IdentityOracle} {policy : Policy} {stale : Option ObjectId}
  {author approver : Did} {genesis tree commit pr approval : Object}

/-- The state that the project declares. -/
def Merging.start (_ : Merging oracle policy stale author approver genesis tree commit pr approval) :
    ProjectState :=
  ⟨"p", policy, [], genesis.id, 0, false⟩

variable (h : Merging oracle policy stale author approver genesis tree commit pr approval)
  {s : Store}
include h

lemma Merging.genesisState_eq (hget : s.get genesis.id = .ok genesis) :
    genesisState s oracle genesis.id = .ok h.start := by
  obtain ⟨b, hb, hgenesis⟩ := h.created
  obtain ⟨hname, rfl⟩ := project_ok hb
  exact genesisState_ok.mpr ⟨genesis, hget, hgenesis.objectType_eq, hgenesis.verified,
    hgenesis.payload_eq, hname, h.valid, h.maintainers_valid, rfl⟩

lemma Merging.commitIsWellFormed_eq (htree : s.get tree.id = .ok tree)
    (hcommit : s.get commit.id = .ok commit) : commitIsWellFormed s commit = true := by
  have hread : readTree tree = .ok [] := by
    refine failIf_bind_ok.mpr ⟨not_not.mpr h.built.objectType_eq, ?_⟩
    exact bind_ok.mpr ⟨_, publicBytes_ok.mpr h.built.payload_eq, rfl⟩
  have hvalidated : validatedCommitTree commit = .ok tree.id := by
    refine failIf_bind_ok.mpr ⟨not_not.mpr h.committed.objectType_eq, ?_⟩
    refine bind_ok.mpr ⟨_, publicBytes_ok.mpr h.committed.payload_eq, ?_⟩
    rw [h.committed.links_eq]
    rfl
  refine Bool.and_eq_true_iff.mpr ⟨decide_eq_true h.committed.objectType_eq, ?_⟩
  refine isOk_iff_exists.mpr ⟨[], map_ok.mpr ⟨[], ?_, rfl⟩⟩
  refine bind_ok.mpr ⟨commit, mapError_ok.mpr hcommit, bind_ok.mpr ⟨_, hvalidated, ?_⟩⟩
  refine bind_ok.mpr ⟨([], ⟨maxCheckoutFiles, maxCheckoutBytes, []⟩), ?_, rfl⟩
  refine failIf_bind_ok.mpr ⟨by simp, bind_ok.mpr ⟨tree, mapError_ok.mpr htree, ?_⟩⟩
  exact bind_ok.mpr ⟨[], hread, rfl⟩

variable [LawfulKeys] {e : Object}

lemma Merging.approval_eq (hget : s.get approval.id = .ok approval) (hindexed : s.Indexed) :
    Approval s oracle pr.id commit.id approver approval := by
  have hvalid : commit.id.Valid := by
    rw [h.committed.portable.id_eq]
    exact ObjectId.valid_of _
  refine ⟨hget, (hindexed _ _ hget _).mpr ?_, h.approved.objectType_eq, ?_,
    h.approved.authorHuman_eq, h.approved.verified⟩
  · rw [h.approved.links_eq]
    exact mem_singleton_self _
  · refine (parseStrict_some decodes_approvalPayload).mpr ⟨h.approved.payload_eq, ?_, _, hvalid⟩
    exact (ObjectId.scidText_of_valid hvalid).length_le.trans (by decide)

/-- A merge of the proposal is valid after the project. -/
lemma Merging.validAt (hpr : s.get pr.id = .ok pr) (hcommit : s.get commit.id = .ok commit)
    (htree : s.get tree.id = .ok tree) (happroval : s.get approval.id = .ok approval)
    (hindexed : s.Indexed) (he : Authored oracle approver (mergeAfter stale genesis.id pr.id) e)
    (hentry : s.get e.id = .ok e) : ValidAt s oracle genesis.id policy genesis.id e := by
  obtain ⟨b, hb, hproposed⟩ := h.proposed
  obtain rfl := propose_ok hb
  have hprev : ⟨"prev", genesis.id⟩ ∈ e.links := by
    rw [he.links_eq]
    simp [mergeAfter, merge]
  have hproject : ⟨"project", genesis.id⟩ ∈ e.links := by
    rw [he.links_eq]
    simp [mergeAfter, merge]
  have hlinked : linked e "prev" = some (stale.getD genesis.id) ∧ linked e "pr" = some pr.id := by
    rw [linked, linked, he.links_eq]
    cases stale <;> exact ⟨rfl, rfl⟩
  have hlinkedPr : linked pr "project" = some genesis.id ∧ linked pr "head" = some commit.id ∧
      linked pr "base" = some (stale.getD genesis.id) := by
    rw [linked, linked, linked, hproposed.links_eq]
    exact ⟨rfl, rfl, rfl⟩
  have hpayload : parsePrPayloadStrict pr = some ("m", "!") :=
    (parseStrict_some decodes_prPayload).mpr ⟨hproposed.payload_eq, by decide, by decide⟩
  refine ⟨hentry, (hindexed _ _ hentry _).mpr (mem_map.mpr ⟨_, hprev, rfl⟩),
    isEntryAfter_iff.mpr ⟨he.objectType_eq, hprev, hproject, he.authorHuman_eq ▸ h.maintains,
      he.verified⟩, (entryIsValid_iff h.valid).mpr (.inl ⟨?_, ⟨_, hlinked.1⟩, pr, commit.id, ?_⟩)⟩
  · exact parseChainEntry_eq_merge.mpr he.payload_eq
  · refine ⟨hlinked.2, hpr, hproposed.objectType_eq, hproposed.verified, ⟨_, hpayload⟩,
      hlinkedPr.1, hlinkedPr.2.2.trans hlinked.1.symm, hlinkedPr.2.1,
      ⟨commit, hcommit, h.committed.verified, h.commitIsWellFormed_eq htree hcommit⟩, ?_⟩
    have hmem : approver ∈ approvers s oracle pr.id commit.id policy pr.authorHuman :=
      mem_approvers.mpr ⟨h.maintains, hproposed.authorHuman_eq ▸ h.author_ne, approval,
        h.approval_eq happroval hindexed⟩
    rw [h.min_eq]
    exact Finset.card_pos.mpr ⟨_, hmem⟩

/-! ### What the project resolves to -/

omit [LawfulKeys] in
/-- The objects besides the entries are of other types. -/
lemma Merging.objectType_ne {o : Object} (ho : o ∈ [genesis, tree, commit, pr, approval]) :
    o.objectType ≠ .custom chainType := by
  obtain ⟨b, hb, hcreated⟩ := h.created
  obtain ⟨-, rfl⟩ := project_ok hb
  obtain ⟨b, hb, hproposed⟩ := h.proposed
  obtain rfl := propose_ok hb
  simp only [mem_cons, not_mem_nil, or_false] at ho
  rcases ho with rfl | rfl | rfl | rfl | rfl
  · exact hcreated.objectType_eq.trans_ne (by simp [projectType, chainType])
  · exact h.built.objectType_eq.trans_ne (by simp [treeType, chainType])
  · exact h.committed.objectType_eq.trans_ne (by simp [ObjectType.commit])
  · exact hproposed.objectType_eq.trans_ne (by simp [prType, chainType])
  · exact h.approved.objectType_eq.trans_ne (by simp [approve, approveType, chainType])

omit h [LawfulKeys] in
/-- A store that holds the objects of the project and some entries, and no other entries. -/
structure Merging.Held
    (_ : Merging oracle policy stale author approver genesis tree commit pr approval) (s : Store)
    (entries : List Object) : Prop where
  indexed : s.Indexed
  get_eq : ∀ o ∈ [genesis, tree, commit, pr, approval], s.get o.id = .ok o
  get_entry : ∀ e ∈ entries, s.get e.id = .ok e
  authored : ∀ e ∈ entries, Authored oracle approver (mergeAfter stale genesis.id pr.id) e
  only : ∀ e, s.get e.id = .ok e → e.objectType = .custom chainType → e ∈ entries

variable {entries : List Object}

section

variable (held : h.Held s entries)
include held

/-- The entries are what is valid after the project. -/
lemma Merging.validAt_iff_of_held {e : Object} :
    ValidAt s oracle genesis.id policy genesis.id e ↔ e ∈ entries := by
  constructor
  · exact fun hvalid => held.only e hvalid.get_eq (isEntryAfter_iff.mp hvalid.after).objectType
  · intro he
    exact h.validAt (held.get_eq _ (by simp)) (held.get_eq _ (by simp)) (held.get_eq _ (by simp))
      (held.get_eq _ (by simp)) held.indexed (held.authored e he) (held.get_entry e he)

omit [LawfulKeys] in
/-- Nothing comes after an entry. -/
lemma Merging.not_validAt_of_held {e x : Object} (he : e ∈ entries)
    (hstale : ∀ id ∈ stale, id ≠ e.id) : ¬ ValidAt s oracle genesis.id policy e.id x := by
  intro hvalid
  have hafter := isEntryAfter_iff.mp hvalid.after
  have hx := held.only x hvalid.get_eq hafter.objectType
  have hprev := hafter.prev
  rw [(held.authored x hx).links_eq] at hprev
  have hne : genesis.id ≠ e.id := by
    intro heq
    have hsame := held.get_eq genesis (by simp)
    rw [heq, held.get_entry e he] at hsame
    refine h.objectType_ne (by simp : genesis ∈ _) ?_
    rw [← Except.ok.inj hsame]
    exact (held.authored e he).objectType_eq
  simp only [mergeAfter, merge, mem_append, mem_map, Option.mem_toList, mem_cons,
    Link.mk.injEq, not_mem_nil, or_false] at hprev
  rcases hprev with ⟨id, hid, -, heq⟩ | ⟨hrel, -⟩ | ⟨-, heq⟩ | ⟨hrel, -⟩
  · exact hstale id hid heq
  · exact absurd hrel (by decide)
  · exact hne heq.symm
  · exact absurd hrel (by decide)

/-- With entries the project resolves to the state after the greatest, in which the commit is the
head of the branch. -/
lemma Merging.exists_resolve_of_held (hne : entries ≠ [])
    (hstale : ∀ id ∈ stale, ∀ e ∈ entries, id ≠ e.id) :
    ∃ e ∈ entries, ∃ fin, genesisState s oracle genesis.id = .ok h.start ∧
      Advances s oracle genesis.id h.start e fin ∧ resolveProject s oracle genesis.id = .ok fin ∧
      fin.branches = [("m", commit.id)] ∧ (fin.forksDetected = true ↔ ∃ e' ∈ entries, e' ≠ e) := by
  have hiff := fun {e} => h.validAt_iff_of_held held (e := e)
  have hgenesis := h.genesisState_eq (held.get_eq genesis (by simp))
  obtain ⟨e, he, hgreatest⟩ := entries.toFinset.exists_max_image Object.id
    ((toFinset_nonempty_iff _).mpr hne)
  simp only [mem_toFinset] at he hgreatest
  have hvalid := hiff.mpr he
  have hauthored := held.authored e he
  obtain ⟨b, hb, hproposed⟩ := h.proposed
  obtain rfl := propose_ok hb
  have hlinked : linked e "pr" = some pr.id ∧ linked pr "head" = some commit.id := by
    rw [linked, linked, hauthored.links_eq, hproposed.links_eq]
    cases stale <;> exact ⟨rfl, rfl⟩
  have hpayload : parsePrPayloadStrict pr = some ("m", "!") :=
    (parseStrict_some decodes_prPayload).mpr ⟨hproposed.payload_eq, by decide, by decide⟩
  rcases (entryIsValid_iff h.valid).mp hvalid.valid with
    ⟨hparse, -, pr', head, hmerge⟩ | ⟨newPolicy, hparse, -⟩
  · have hsame : pr' = pr ∧ head = commit.id := by
      have hid : pr.id = pr'.id := Option.some.inj (hlinked.1.symm.trans hmerge.pr_eq)
      have hget := hmerge.get_pr
      rw [← hid, held.get_eq pr (by simp)] at hget
      obtain rfl := Except.ok.inj hget
      exact ⟨rfl, Option.some.inj (hmerge.head_eq.symm.trans hlinked.2)⟩
    obtain ⟨rfl, rfl⟩ := hsame
    have hadvances : Advances s oracle genesis.id h.start e ⟨"p", policy,
        setBranch "m" commit.id [], e.id, 1, decide (∃ e' ∈ entries, e' ≠ e)⟩ := by
      refine ⟨hvalid, fun e' he' => hgreatest e' (hiff.mp he'),
        applyEntry_merge hparse hmerge hpayload, rfl, rfl, rfl, ?_⟩
      rw [decide_eq_true_iff]
      constructor
      · rintro ⟨e', he', hne'⟩
        exact .inr ⟨e', hiff.mpr he', hne'⟩
      · rintro (hfork | ⟨e', he', hne'⟩)
        · cases hfork
        · exact ⟨e', hiff.mp he', hne'⟩
    refine ⟨e, he, _, hgenesis, hadvances, ?_, rfl, decide_eq_true_iff⟩
    exact resolveProject_ok.mpr ⟨h.start, [e], hgenesis, .cons hadvances (.nil _),
      by simp [maxChainLen],
      fun x hx => h.not_validAt_of_held held he (fun id hid => hstale id hid e he) hx⟩
  · have hmerged := parseChainEntry_eq_merge.mpr hauthored.payload_eq
    rw [hparse] at hmerged
    cases hmerged

end

omit h [LawfulKeys] in
/-- The objects of the project, and some entries. -/
def Merging.objects
    (_ : Merging oracle policy stale author approver genesis tree commit pr approval)
    (entries : List Object) : List Object :=
  [genesis, tree, commit, pr, approval] ++ entries

variable
  (hentries : ∀ e ∈ entries, Authored oracle approver (mergeAfter stale genesis.id pr.id) e)
include hentries

omit [LawfulKeys] in
lemma Merging.isPublic : ∀ o ∈ h.objects entries, Store.Public o := by
  obtain ⟨b, hb, hcreated⟩ := h.created
  obtain ⟨-, rfl⟩ := project_ok hb
  obtain ⟨b, hb, hproposed⟩ := h.proposed
  obtain rfl := propose_ok hb
  intro o ho
  rcases mem_append.mp ho with ho | ho
  · simp only [mem_cons, not_mem_nil, or_false] at ho
    rcases ho with rfl | rfl | rfl | rfl | rfl
    · exact hcreated.isPublic rfl
    · exact h.built.isPublic rfl
    · exact h.committed.isPublic rfl
    · exact hproposed.isPublic rfl
    · exact h.approved.isPublic rfl
  · exact (hentries o ho).isPublic rfl

/-- A store into which the objects were inserted, and some of other types. -/
lemma Merging.held_inserted (others : List Object) (hothers : ∀ o ∈ others, Store.Public o)
    (htypes : ∀ o ∈ others, o.objectType ≠ .custom chainType)
    (hnodup : ((h.objects entries ++ others).map Object.id).Nodup) :
    h.Held (Store.after ((h.objects entries ++ others).map .insert)) entries := by
  have hpublic : ∀ o ∈ h.objects entries ++ others, Store.Public o := by
    intro o ho
    rcases mem_append.mp ho with ho | ho
    · exact h.isPublic hentries o ho
    · exact hothers o ho
  have hget := fun {o} ho => (Store.get_inserted_iff hpublic hnodup (o := o)).mpr ⟨ho, rfl⟩
  refine ⟨Store.indexed_after (Store.collisionFree_inserts hpublic hnodup), fun o ho => hget ?_,
    fun e he => hget ?_, hentries, fun e he htype => ?_⟩
  · exact mem_append_left _ (mem_append_left _ ho)
  · exact mem_append_left _ (mem_append_right _ he)
  · obtain ⟨hmem, -⟩ := (Store.get_inserted_iff hpublic hnodup).mp he
    rcases mem_append.mp hmem with hmem | hmem
    · rcases mem_append.mp hmem with hmem | hmem
      · exact absurd htype (h.objectType_ne hmem)
      · exact hmem
    · exact absurd htype (htypes e hmem)

variable (hnodup : ((h.objects entries).map Object.id).Nodup)
include hnodup

lemma Merging.held_objects : h.Held (Store.after ((h.objects entries).map .insert)) entries := by
  have held := h.held_inserted hentries [] (by simp) (by simp) (by simpa using hnodup)
  rwa [append_nil] at held

lemma Merging.validAt_iff :
    ValidAt (Store.after ((h.objects entries).map .insert)) oracle genesis.id policy genesis.id e ↔
      e ∈ entries :=
  h.validAt_iff_of_held (h.held_objects hentries hnodup)

/-- Without entries the project resolves to what it declares. -/
lemma Merging.resolve_nil (hnil : entries = []) :
    resolveProject (Store.after ((h.objects entries).map .insert)) oracle genesis.id =
      .ok h.start := by
  have held := h.held_objects hentries hnodup
  refine resolveProject_ok.mpr ⟨h.start, [], h.genesisState_eq (held.get_eq genesis (by simp)),
    .nil _, Nat.zero_le _, fun e he => ?_⟩
  have hmem := (h.validAt_iff_of_held held).mp he
  rw [hnil] at hmem
  cases hmem

/-- With entries it resolves to the state after the greatest. -/
lemma Merging.exists_resolve (hne : entries ≠ []) (hstale : ∀ id ∈ stale, ∀ e ∈ entries, id ≠ e.id) :
    ∃ e ∈ entries, ∃ fin,
      genesisState (Store.after ((h.objects entries).map .insert)) oracle genesis.id =
        .ok h.start ∧
      Advances (Store.after ((h.objects entries).map .insert)) oracle genesis.id h.start e fin ∧
      resolveProject (Store.after ((h.objects entries).map .insert)) oracle genesis.id = .ok fin ∧
      (fin.forksDetected = true ↔ ∃ e' ∈ entries, e' ≠ e) := by
  obtain ⟨e, he, fin, hgenesis, hadvances, hresolve, -, hforks⟩ :=
    h.exists_resolve_of_held (h.held_objects hentries hnodup) hne hstale
  exact ⟨e, he, fin, hgenesis, hadvances, hresolve, hforks⟩

end

end

/-! ### Sample projects -/

section

variable [KeyPrimitives]

/-- Whether a builder is within the limits. -/
def isSignable (b : ObjectBuilder) : Bool :=
  (match b.objectType with
    | .wellKnown tag => decide (tag ≠ ObjectType.customTypeMarker)
    | .custom name   => decide (name ≠ "" ∧ (utf8 name).length ≤ maxTypeBytes)) &&
  decide (b.links.length ≤ maxLinks) &&
  b.links.all (fun l => decide (l.rel ≠ "" ∧ (utf8 l.rel).length ≤ maxRelBytes ∧
    (ObjectId.parse l.target.asStr).toOption = some l.target)) &&
  decide (b.payload.bytes.length ≤ maxPayloadBytes ∧ b.payload.isEncrypted = false)

variable {b : ObjectBuilder} {m : SampleMember} {o : Object} {oracle : IdentityOracle}

lemma signable_of_isSignable (h : isSignable b = true) :
    Signable b ∧ b.payload.isEncrypted = false := by
  simp only [isSignable, Bool.and_eq_true, all_eq_true, decide_eq_true_eq, toOption_some] at h
  obtain ⟨⟨⟨htype, hlinks⟩, hall⟩, hpayload, hpublic⟩ := h
  refine ⟨⟨?_, hlinks, fun rel hrel => ?_, fun id hid => ?_, hpayload⟩, hpublic⟩
  · cases hb : b.objectType with
    | wellKnown tag =>
      rw [hb] at htype
      have hkept := of_decide_eq_true htype
      exact hkept
    | custom name =>
      rw [hb] at htype
      have hkept := of_decide_eq_true htype
      exact hkept
  · obtain ⟨l, hl, rfl⟩ := mem_map.mp hrel
    exact ⟨(hall l hl).1, (hall l hl).2.1⟩
  · obtain ⟨l, hl, rfl⟩ := mem_map.mp hid
    exact (hall l hl).2.2

/-- What the device of a member signs. -/
def make (m : SampleMember) (b : ObjectBuilder) : Option Object :=
  if isSignable b then (b.sign m.root.did m.device).toOption else none

lemma make_some : make m b = some o ↔ isSignable b = true ∧ b.sign m.root.did m.device = .ok o := by
  rw [make]
  split_ifs with h <;> simp [h, toOption_some]

lemma Vouched.authored_of_make [LawfulKeys] (h : Vouched oracle m.root.did m.device)
    (ho : make m b = some o) : Authored oracle m.root.did b o :=
  h.authored (signable_of_isSignable (make_some.mp ho).1).1 (make_some.mp ho).2

lemma Vouched.accepted_of_make [LawfulKeys] (h : Vouched oracle m.root.did m.device)
    (ho : make m b = some o) : Store.Public o ∧ authorVerified oracle o = true :=
  ⟨(h.authored_of_make ho).isPublic (signable_of_isSignable (make_some.mp ho).1).2,
    (h.authored_of_make ho).verified⟩

/-- The logs of a team. -/
def logs (team : List SampleMember) : List (Did × Kel) :=
  team.flatMap fun m => [(m.root.did, m.delegating.kel), (m.device.did, m.device.kel)]

/-- What everybody who asks is told about a team. -/
def logsOf (team : List SampleMember) : IdentityOracle := fun d => (logs team).lookup d

omit [KeyPrimitives] in
lemma logsOf_some {team : List SampleMember} (hnodup : ((logs team).map Prod.fst).Nodup) {d : Did}
    {kel : Kel} (h : (d, kel) ∈ logs team) : logsOf team d = some kel := by
  obtain ⟨before, after, hsplit⟩ := append_of_mem h
  refine lookup_eq_some_iff.mpr ⟨before, after, hsplit, fun p hp => ?_⟩
  rw [hsplit, map_append, nodup_append] at hnodup
  simpa using (hnodup.2.2 p.1 (mem_map_of_mem hp) d (by simp)).symm

/-- Whether the members of some keys are a team that is as it should be. -/
def evaluates (keys : List (ℕ × ℕ)) (check : List SampleMember → Bool) : Bool :=
  (keys.mapM fun (i, j) => sampleMember i j).toOption.any fun team =>
    decide ((logs team).map Prod.fst).Nodup && check team

lemma exists_team [LawfulKeys] {keys : List (ℕ × ℕ)} {check : List SampleMember → Bool}
    (h : evaluates keys check = true)
    (hdelegated : evaluates keys (List.all · SampleMember.isDelegated) = true) :
    ∃ team, (team.map fun m => m.root.did).Nodup ∧
      (∀ m ∈ team, Vouched (logsOf team) m.root.did m.device ∧ m.device.current.length = 1) ∧
      check team = true := by
  obtain ⟨team, hteam, hall⟩ := exists_of_any _ h
  obtain ⟨hdistinct, hcheck⟩ := Bool.and_eq_true_iff.mp hall
  rw [evaluates, hteam] at hdelegated
  have hmembers := all_eq_true.mp (Bool.and_eq_true_iff.mp hdelegated).2
  have hnodup : ((logs team).map Prod.fst).Nodup := of_decide_eq_true hdistinct
  have htold : ∀ {d kel}, (d, kel) ∈ logs team → logsOf team d = some kel := logsOf_some hnodup
  rw [logs, map_flatMap, nodup_flatMap] at hnodup
  obtain ⟨hown, hothers⟩ := hnodup
  refine ⟨team, pairwise_map.mpr (hothers.imp fun hdisjoint heq => ?_), fun m hm => ?_, hcheck⟩
  · exact hdisjoint (mem_cons_self) (by simp [heq])
  have hroot := htold (mem_flatMap.mpr ⟨m, hm, mem_cons_self⟩)
  have hdevice := htold (mem_flatMap.mpr
    ⟨m, hm, mem_cons_of_mem _ (mem_singleton_self _)⟩)
  have hne : m.root.did ≠ m.device.did := by simpa using hown m hm
  obtain ⟨⟨i, j⟩, -, hmember⟩ := exists_of_mapM_ok hteam hm
  have h := Controller.delegated_of_sampleMember hmember hne (hmembers m hm)
  obtain ⟨k, hk⟩ := h.current_eq
  have hsuite : ∀ key ∈ m.device.current, key.suite = .ed25519 := by
    rw [hk]
    exact forall_mem_singleton.mpr rfl
  exact ⟨⟨h.valid, h.agrees, by simp [hk], hsuite, by simp [hk, maxSignatures], hdevice,
    m.delegating.kel, hroot, h.did_eq, .all, h.delegated, by decide, by decide⟩, by simp [hk]⟩

/-- A project of two members with a merge, and what it is made of. -/
structure SampleProject where
  genesis : Object
  tree : Object
  commit : Object
  pr : Object
  approval : Object
  entry : Object

def sampleProject (stale : Option ObjectId) (a b : SampleMember) :
    Option SampleProject := do
  let builder ← (project "p" ⟨1, [a.root.did, b.root.did]⟩).toOption
  let genesis ← make a builder
  let tree ← make a { objectType := .custom treeType, payload := .pub (countBytes UInt32 0) }
  let commit ← make a
    { objectType := .commit, links := [⟨"tree", tree.id⟩], payload := .pub [2] }
  let proposal ← (propose genesis.id "m" "!" commit.id (stale.getD genesis.id) 0 0).toOption
  let pr ← make b proposal
  let approval ← make a (approve pr.id commit.id true 0 0)
  let entry ← make a (mergeAfter stale genesis.id pr.id)
  return ⟨genesis, tree, commit, pr, approval, entry⟩

def SampleProject.objects (p : SampleProject) : List Object :=
  [p.genesis, p.tree, p.commit, p.pr, p.approval, p.entry]

lemma merging_of_sampleProject [LawfulKeys] {stale : Option ObjectId} {a b : SampleMember}
    {p : SampleProject} (h : sampleProject stale a b = some p)
    (ha : Vouched oracle a.root.did a.device) (hb : Vouched oracle b.root.did b.device)
    (hne : a.root.did ≠ b.root.did) :
    Merging oracle ⟨1, [a.root.did, b.root.did]⟩ stale b.root.did a.root.did p.genesis p.tree
        p.commit p.pr p.approval ∧
      (mergeAfter stale p.genesis.id p.pr.id).sign a.root.did a.device = .ok p.entry ∧
      Authored oracle a.root.did (mergeAfter stale p.genesis.id p.pr.id) p.entry := by
  simp only [sampleProject, Option.bind_eq_bind, Option.bind_eq_some_iff, toOption_some,
    Option.pure_def, Option.some.injEq] at h
  obtain ⟨builder, hbuilder, genesis, hgenesis, tree, htree, commit, hcommit, proposal, hproposal, pr,
    hpr, approval, happroval, entry, hentry, rfl⟩ := h
  refine ⟨⟨⟨by simp, by simp [maxMaintainers], by simp, by simp, by simp [hne]⟩, rfl,
    fun m hm => ?_, by simp, hne, ⟨builder, hbuilder, ha.authored_of_make hgenesis⟩,
    ha.authored_of_make htree, ha.authored_of_make hcommit,
    ⟨proposal, hproposal, hb.authored_of_make hpr⟩, ha.authored_of_make happroval⟩,
    (make_some.mp hentry).2, ha.authored_of_make hentry⟩
  have hvalid : m.Valid := by
    simp only [mem_cons, not_mem_nil, or_false] at hm
    rcases hm with rfl | rfl
    exacts [ha.human_valid, hb.human_valid]
  obtain ⟨hm, hlength⟩ := ObjectBuilder.portable_did hvalid
  exact ⟨hm, hlength.trans (by decide)⟩

end

/-- A sample project with an entry. -/
structure SampleMerging (stale : Option ObjectId) (oracle : IdentityOracle) (policy : Policy)
    (author approver : Did) (device : Controller) (p : SampleProject) : Prop where
  merging : @Merging .sample oracle policy stale author approver p.genesis p.tree p.commit p.pr
    p.approval
  vouched : @Vouched .sample oracle approver device
  length_eq : device.current.length = 1
  entry_eq : @ObjectBuilder.sign .sample (mergeAfter stale p.genesis.id p.pr.id) approver device =
    .ok p.entry
  authored : @Authored .sample oracle approver (mergeAfter stale p.genesis.id p.pr.id) p.entry
  nodup : (p.objects.map Object.id).Nodup

/-- What is evaluated of two members and their project. -/
def projectChecks [KeyPrimitives] (stale : Option ObjectId) (check : SampleProject → Bool) :
    List SampleMember → Bool
  | [a, b] =>
    (sampleProject stale a b).any fun p => decide (p.objects.map Object.id).Nodup && check p
  | _      => false

lemma exists_merging_of_evaluates (stale : Option ObjectId)
    (check : IdentityOracle → SampleProject → Bool)
    (h : @evaluates .sample [(0, 1), (4, 5)] (fun team =>
      @projectChecks .sample stale (check (logsOf team)) team) = true) :
    ∃ oracle policy author approver device p,
      SampleMerging stale oracle policy author approver device p ∧ check oracle p = true := by
  let := KeyPrimitives.sample
  have := lawfulKeys_sample
  obtain ⟨team, hnodup, hteam, hcheck⟩ := exists_team h (by decide +kernel)
  match team, hcheck with
  | [a, b], hcheck =>
    obtain ⟨ha, hone⟩ := hteam a (by simp)
    obtain ⟨hb, -⟩ := hteam b (by simp)
    obtain ⟨p, hp, hall⟩ := Option.any_eq_true _ _ |>.mp hcheck
    obtain ⟨hids, hcheck⟩ := Bool.and_eq_true_iff.mp hall
    obtain ⟨hmerging, hentry, hauthored⟩ := merging_of_sampleProject hp ha hb (by simpa using hnodup)
    exact ⟨_, _, _, _, a.device, p, ⟨hmerging, ha, hone, hentry, hauthored, of_decide_eq_true hids⟩,
      hcheck⟩

/-- A project whose entry can be packaged once more. -/
lemma exists_sample_merging :
    ∃ oracle policy author approver device p,
      SampleMerging none oracle policy author approver device p ∧
      letI e := @Object.repackaged .sample p.entry (WitnessJournal.sampleSurplus 7)
      @Authored .sample oracle approver (mergeAfter none p.genesis.id p.pr.id) e ∧
        ((p.objects ++ [e]).map Object.id).Nodup := by
  let := KeyPrimitives.sample
  have := lawfulKeys_sample
  obtain ⟨oracle, policy, author, approver, device, p, h, hcheck⟩ := exists_merging_of_evaluates
    none (fun oracle p =>
      let e := p.entry.repackaged (WitnessJournal.sampleSurplus 7)
      decide ((Object.fromBytes e.toBytes).toOption = some e) && authorVerified oracle e &&
        decide ((p.objects ++ [e]).map Object.id).Nodup)
    (by decide +kernel)
  simp only [Bool.and_eq_true, decide_eq_true_eq, toOption_some] at hcheck
  obtain ⟨⟨hread, hverified⟩, hnodup⟩ := hcheck
  exact ⟨oracle, policy, author, approver, device, p, h, ⟨(Object.fromBytes_ok.mp hread).2,
    hverified, h.authored.authorHuman_eq, h.authored.objectType_eq, h.authored.links_eq,
    h.authored.payload_eq⟩, hnodup⟩

end Mininet.Forge

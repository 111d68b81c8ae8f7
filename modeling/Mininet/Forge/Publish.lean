import Mininet.Forge.Members
import Mininet.Forge.Release
import Mininet.Identity.Sums

/-!
# Publishing a release

Three members of a project: two merge a commit, the third publishes a release of it with its
artifact, and the others attest the artifact. The release is verified by everybody who has these
objects, whatever else of other types is stored beside them.
-/

namespace Mininet.Forge

open Codec Fallible Identity Objects Media List
open Controller (SampleMember)

/-- Everybody who attests is counted. -/
lemma exists_attesters [KeyPrimitives] {s : Store} {oracle : IdentityOracle} {releaseId : ObjectId}
    {artifact : Bytes} {author : String} {attestations : List Object} (hindexed : s.Indexed)
    (hreadable : ∀ id ∈ s.linkingTo releaseId, ∃ o, s.get id = .ok o)
    (hfew : (s.linkingTo releaseId).length < 2 ^ 32)
    (hattests : ∀ a ∈ attestations, s.get a.id = .ok a ∧ releaseId ∈ a.links.map Link.target ∧
      Attests oracle artifact author a)
    (hnodup : (attestations.map (·.authorHuman.scid)).Nodup) :
    ∃ attesters, (s.linkingTo releaseId).foldlM (countAttester s oracle artifact author) [] =
        .ok attesters ∧
      attestations.length ≤ (UInt32.ofNat attesters.length).toNat := by
  have hstep : ∀ acc, ∀ id ∈ s.linkingTo releaseId, True → ∃ acc',
      countAttester s oracle artifact author acc id = .ok acc' ∧ True := by
    intro acc id hid _
    obtain ⟨o, ho⟩ := hreadable id hid
    exact ⟨_, bind_ok.mpr ⟨o, mapError_ok.mpr ho, rfl⟩, trivial⟩
  obtain ⟨attesters, hattesters⟩ := exists_foldlM_ok hstep (s := []) trivial
  refine ⟨attesters, hattesters, ?_⟩
  obtain ⟨hdistinct, hmem⟩ := countAttesters_spec hattesters
  have hge : attestations.length ≤ attesters.length := by
    have hsub : ∀ scid ∈ attestations.map (·.authorHuman.scid), scid ∈ attesters := by
      intro scid hscid
      obtain ⟨a, ha, rfl⟩ := mem_map.mp hscid
      obtain ⟨hget, hlinks, hattest⟩ := hattests a ha
      exact (hmem _).mpr ⟨a.id, (hindexed _ a hget _).mpr hlinks, a, hget, hattest, rfl⟩
    simpa using (subperm_of_subset hnodup hsub).length_le
  have hle : attesters.length ≤ (s.linkingTo releaseId).length := by
    let author : ObjectId → String := fun id =>
      match s.get id with
      | .ok a    => a.authorHuman.scid
      | .error _ => ""
    have hsub : ∀ scid ∈ attesters, scid ∈ (s.linkingTo releaseId).map author := by
      intro scid hscid
      obtain ⟨id, hid, a, ha, -, rfl⟩ := (hmem scid).mp hscid
      refine mem_map.mpr ⟨id, hid, ?_⟩
      change (match s.get id with | .ok a => a.authorHuman.scid | .error _ => "") = _
      rw [ha]
    simpa using (subperm_of_subset hdistinct hsub).length_le
  rw [UInt32.toNat_ofNat_of_lt' (hle.trans_lt hfew)]
  exact hge

/-! ### A sample release -/

/-- A release by a team of three, of which one publishes what the others merged and attest. -/
structure SampleRelease where
  project : SampleProject
  chunk : Object
  manifest : Object
  rel : Object
  att : Object
  att' : Object

/-- The objects of the sample, and some more. -/
def SampleRelease.objects (x : SampleRelease) (extra : List Object) : List Object :=
  x.project.objects ++ ([x.chunk, x.manifest, x.rel] ++ ([x.att, x.att'] ++ extra))

lemma SampleRelease.mem_objects {x : SampleRelease} {extra : List Object} {o : Object} :
    o ∈ x.objects extra ↔ o ∈ x.objects [] ∨ o ∈ extra := by
  simp only [objects, mem_append, not_mem_nil, or_false, or_assoc]

section

variable [KeyPrimitives]

/-- A store of the sample and some more. -/
abbrev SampleRelease.store (x : SampleRelease) (extra : List Object) : Store :=
  Store.after ((x.objects extra).map .insert)

/-- The manifest of an empty artifact. -/
def SampleRelease.artifact (x : SampleRelease) : Manifest :=
  ⟨x.manifest.id, "t", 0, (blake3 []).bytes, [x.chunk.id]⟩

lemma SampleRelease.assemble_artifact (x : SampleRelease) {s : Store}
    (hget : s.get x.chunk.id = .ok x.chunk) (htype : x.chunk.objectType = .custom chunkType)
    (hpayload : x.chunk.payload = .pub []) : assemble s x.artifact = .ok [] := by
  have hcontains : s.contains x.chunk.id = true := by
    obtain ⟨-, -, content, hcontent, -⟩ := Store.get_ok.mp hget
    rw [Store.contains, hcontent]
    rfl
  refine failIf_bind_ok.mpr ⟨by simp [missingChunks, artifact, hcontains], ?_⟩
  refine bind_ok.mpr ⟨[], bind_ok.mpr ⟨[], ?_, rfl⟩, failIf_bind_ok.mpr ⟨?_, rfl⟩⟩
  · refine bind_ok.mpr ⟨x.chunk, mapError_ok.mpr hget, ?_⟩
    refine failIf_bind_ok.mpr ⟨not_not.mpr htype, ?_⟩
    rw [hpayload]
    exact failIf_bind_ok.mpr ⟨by simp, rfl⟩
  · rw [not_or, not_not, not_not]
    exact ⟨rfl, rfl⟩

/-- Whether the objects of a release say what they should. -/
def SampleRelease.isPublished (x : SampleRelease) (version : String) : Bool :=
  decide ((x.objects []).map Object.objectType =
      [.custom projectType, .custom treeType, .commit, .custom prType, .custom approveType,
        .custom chainType, .custom chunkType, mediaManifest, .release, .custom attestType,
        .custom attestType] ∧
    x.chunk.payload = .pub [] ∧ (readManifest x.manifest).toOption = some x.artifact ∧
    (parseReleasePayload x.rel).toOption =
      some (version, "m", (blake3 []).bytes, List.replicate 32 0) ∧
    ["project", "commit", "artifact"].map (linked x.rel) =
      [some x.project.genesis.id, some x.project.commit.id, some x.manifest.id] ∧
    x.rel.timestampMs = 0 ∧
    (∀ a ∈ [x.att, x.att'], x.rel.id ∈ a.links.map Link.target ∧
      a.objectType = .custom attestType ∧ a.payload = .pub (blake3 []).bytes ∧
      a.authorHuman.scid ≠ x.rel.authorHuman.scid) ∧
    ([x.att, x.att'].map (·.authorHuman.scid)).Nodup)

def sampleRelease (version : String) (a b r : SampleMember) : Option SampleRelease := do
  let p ← sampleProject none a b
  let chunk ← make a { objectType := .custom chunkType, payload := .pub [] }
  let manifest ← make a
    { objectType := mediaManifest, links := [⟨"chunk", chunk.id⟩],
      payload := .pub (framed UInt32 (utf8 "t") ++ toBeBytes (UInt64.ofNat ([] : Bytes).length) ++
        (blake3 []).bytes) }
  let builder ← (release version p.genesis.id "m" p.commit.id manifest.id (blake3 []).bytes
    (List.replicate 32 0) 0 0).toOption
  let rel ← make r builder
  let att ← make a (attest rel.id (blake3 []).bytes 0 0)
  let att' ← make b (attest rel.id (blake3 []).bytes 0 0)
  return ⟨p, chunk, manifest, rel, att, att'⟩

/-- What is evaluated of three members, their release and what else they make. -/
def releaseChecks (version : String)
    (more : SampleMember → SampleMember → SampleRelease → Option (List Object)) :
    List SampleMember → Bool
  | [a, b, r] => (sampleRelease version a b r).any fun x => (more b r x).any fun extra =>
    x.isPublished version && decide ((x.objects extra).map Object.id).Nodup
  | _         => false

end

structure SamplePublished (version : String) (oracle : IdentityOracle) (policy : Policy)
    (a b r : SampleMember) (x : SampleRelease) : Prop where
  vouched : ∀ m ∈ [a, b, r], @Vouched .sums oracle m.root.did m.device
  nodup_members : [a.root.did, b.root.did, r.root.did].Nodup
  merging : @Merging .sums oracle policy none b.root.did a.root.did x.project.genesis x.project.tree
    x.project.commit x.project.pr x.project.approval
  entry_authored : @Authored .sums oracle a.root.did
    (mergeAfter none x.project.genesis.id x.project.pr.id) x.project.entry
  accepted : ∀ o ∈ [x.chunk, x.manifest, x.rel] ++ [x.att, x.att'],
    @Store.Public .sums o ∧ @authorVerified .sums oracle o = true
  author_eq : x.rel.authorHuman = r.root.did
  published : @SampleRelease.isPublished .sums x version = true

lemma exists_sample_published {version : String}
    {more : SampleMember → SampleMember → SampleRelease → Option (List Object)}
    (h : @evaluates .sums [(0, 1), (2, 3), (5, 8)] (@releaseChecks .sums version more) = true) :
    ∃ oracle policy a b r x extra, SamplePublished version oracle policy a b r x ∧
      more b r x = some extra ∧ ((x.objects extra).map Object.id).Nodup := by
  let := KeyPrimitives.sums
  have := lawfulKeys_sums
  obtain ⟨team, hnodup, hteam, hcheck⟩ := exists_team h (by decide +kernel)
  unfold releaseChecks at hcheck
  split at hcheck
  next a b r =>
    have hvouched := fun m hm => (hteam m hm).1
    have ha := hvouched a (by simp)
    have hb := hvouched b (by simp)
    have hr := hvouched r (by simp)
    have hab : a.root.did ≠ b.root.did := by
      simp only [map_cons, nodup_cons, mem_cons, not_or] at hnodup
      exact hnodup.1.1
    obtain ⟨x, hx, hcheck⟩ := (Option.any_eq_true _ _).mp hcheck
    obtain ⟨extra, hextra, hcheck⟩ := (Option.any_eq_true _ _).mp hcheck
    obtain ⟨hpublished, hids⟩ := Bool.and_eq_true_iff.mp hcheck
    simp only [sampleRelease, Option.bind_eq_bind, Option.bind_eq_some_iff, toOption_some,
      Option.pure_def, Option.some.injEq] at hx
    obtain ⟨p, hp, chunk, hchunk, manifest, hmanifest, builder, -, rel, hrel, att, hatt, att', hatt',
      rfl⟩ := hx
    obtain ⟨hmerging, -, hentry⟩ := merging_of_sampleProject hp ha hb hab
    refine ⟨_, _, a, b, r, _, extra, ⟨hvouched, hnodup, hmerging, hentry, ?_,
      (hr.authored_of_make hrel).authorHuman_eq, hpublished⟩, hextra, of_decide_eq_true hids⟩
    simp only [cons_append, nil_append, forall_mem_cons]
    exact ⟨ha.accepted_of_make hchunk, ha.accepted_of_make hmanifest, hr.accepted_of_make hrel,
      ha.accepted_of_make hatt, hb.accepted_of_make hatt', forall_mem_nil _⟩
  next => cases hcheck

/-- A policy that the release meets. -/
def sampleRules : ReleasePolicy := ⟨2, 3600000, 3600256⟩

namespace SamplePublished

variable {version : String} {oracle : IdentityOracle} {policy : Policy} {a b r : SampleMember}
  {x : SampleRelease} (h : SamplePublished version oracle policy a b r x) {extra : List Object}
include h

lemma isPublic (hextra : ∀ o ∈ extra, @Store.Public .sums o) :
    ∀ o ∈ x.objects extra, @Store.Public .sums o := by
  let := KeyPrimitives.sums
  intro o ho
  rcases mem_append.mp ho with ho | ho
  · exact h.merging.isPublic (forall_mem_singleton.mpr h.entry_authored) o ho
  · rw [← append_assoc] at ho
    rcases mem_append.mp ho with ho | ho
    · exact (h.accepted o ho).1
    · exact hextra o ho

/-- The release is verified. -/
lemma exists_governed (extra : List Object) (hextra : ∀ o ∈ extra, @Store.Public .sums o)
    (htypes : ∀ o ∈ extra, o.objectType ≠ .custom chainType)
    (hnodup : ((x.objects extra).map Object.id).Nodup) (hfew : extra.length ≤ 1000) :
    ∃ v, @Governed .sums (@SampleRelease.store .sums x extra) oracle x.rel.id
        x.project.genesis.id "m" sampleRules x.rel v ∧
      v.version = version ∧ v.artifact.digest = (@blake3 KeyPrimitives.sums.toPrimitives []).bytes := by
  let := KeyPrimitives.sums
  have := lawfulKeys_sums
  obtain ⟨hmap, hchunk, hmanifest, hparse, hlinked, hstamp, hattests, hauthors⟩ :=
    of_decide_eq_true h.published
  have hpublic := h.isPublic hextra
  have hget : ∀ {o}, o ∈ x.objects extra → (x.store extra).get o.id = .ok o := fun ho =>
    (Store.get_inserted_iff hpublic hnodup).mpr ⟨ho, rfl⟩
  have hindexed := Store.indexed_after (Store.collisionFree_inserts hpublic hnodup)
  obtain ⟨-, -, -, -, -, -, hchunkType, hmanifestType, hrelType, hattType, hattType', -⟩ := by
    simpa only [SampleRelease.objects, SampleProject.objects, cons_append, nil_append,
      map_cons, map_nil, List.cons.injEq] using hmap
  obtain ⟨hproject, hcommit, hartifact, -⟩ := by
    simpa only [map_cons, map_nil, List.cons.injEq] using hlinked
  have hmerged : h.merging.Held (x.store extra) [x.project.entry] := by
    refine h.merging.held_inserted (forall_mem_singleton.mpr h.entry_authored)
      ([x.chunk, x.manifest, x.rel, x.att, x.att'] ++ extra) (fun o ho => hpublic o ?_)
      (fun o ho => ?_) hnodup
    · exact mem_append_right x.project.objects ho
    · rcases mem_append.mp ho with ho | ho
      · simp only [mem_cons, not_mem_nil, or_false] at ho
        rcases ho with rfl | rfl | rfl | rfl | rfl
        all_goals simp only [hchunkType, hmanifestType, hrelType, hattType, hattType']; decide
      · exact htypes o ho
  obtain ⟨e, he, fin, -, -, hresolve, hbranches, hforks⟩ :=
    h.merging.exists_resolve_of_held hmerged (by simp) nofun
  have hquiet : fin.forksDetected = false := by
    refine Bool.eq_false_iff.mpr fun hfork => ?_
    obtain ⟨e', he', hne⟩ := hforks.mp hfork
    rw [mem_singleton] at he he'
    exact hne (he'.trans he.symm)
  have hmade : ∀ o ∈ [x.chunk, x.manifest, x.rel] ++ [x.att, x.att'], o ∈ x.objects extra := by
    intro o ho
    refine mem_append_right _ ?_
    rw [← append_assoc]
    exact mem_append_left _ ho
  have hlinking : ∀ {id}, id ∈ (x.store extra).linkingTo x.rel.id ↔ _ :=
    Store.mem_linkingTo_inserted hpublic hnodup
  have hfewLinks : ((x.store extra).linkingTo x.rel.id).length < 2 ^ 32 := by
    have hsub : ∀ id ∈ (x.store extra).linkingTo x.rel.id, id ∈ (x.objects extra).map Object.id := by
      intro id hid
      obtain ⟨o, ho, rfl, -⟩ := hlinking.mp hid
      exact mem_map_of_mem ho
    have hle := (subperm_of_subset (Store.nodup_linkingTo _ _) hsub).length_le
    have hlength : (x.objects extra).length = extra.length + 11 := by
      simp [SampleRelease.objects, SampleProject.objects]
    rw [length_map, hlength] at hle
    omega
  obtain ⟨attesters, hattesters, hcount⟩ := exists_attesters hindexed (fun id hid => by
    obtain ⟨o, ho, rfl, -⟩ := hlinking.mp hid
    exact ⟨o, hget ho⟩) hfewLinks (fun a ha => by
    obtain ⟨hlinks, htype, hpayload, hother⟩ := hattests a ha
    have ha := mem_append_right [x.chunk, x.manifest, x.rel] ha
    exact ⟨hget (hmade a ha), hlinks, htype, hpayload, (h.accepted a ha).2, hother⟩) hauthors
  refine ⟨⟨x.rel.id, version, x.artifact, UInt32.ofNat attesters.length⟩,
    ⟨⟨hget (hmade _ (by simp)), hrelType, (h.accepted _ (by simp)).2,
      ⟨_, toOption_some.mp hparse⟩, ?_, ⟨attesters, hattesters, UInt32.le_iff_toNat_le.mpr hcount,
        rfl⟩, ⟨_, x.manifest, hartifact, hget (hmade _ (by simp)), toOption_some.mp hmanifest⟩,
      ⟨_, x.assemble_artifact (hget (hmade _ (by simp))) hchunkType hchunk⟩, rfl⟩, rfl, hproject,
      fin, x.project.commit.id, hresolve, hquiet, by rw [hbranches]; rfl, hcommit⟩, rfl, rfl⟩
  rw [timelockEnd, hstamp]
  decide

end SamplePublished

end Mininet.Forge

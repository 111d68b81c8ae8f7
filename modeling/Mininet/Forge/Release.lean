import Mininet.Forge.Members
import Mininet.Lib.Avoids

/-!
# Releases

A release is adopted when its source is the head that governance made canonical, enough identities
attest that they built the same artifact, a timelock has passed, and the artifact is complete. The
check refuses a project whose governance forked, and is the only one to raise that error.
-/

namespace Mininet.Forge

open Codec Fallible Identity Objects Media

def attestType : String := "mini/attest"

/-- What a release has to pass. -/
structure ReleasePolicy where
  minAttestations : UInt32
  timelockMs : UInt64
  nowMs : UInt64

def adoptionMinAttestations : UInt32 := 2

def adoptionMinTimelockMs : UInt64 := 3600000

def ReleasePolicy.validateForAdoption (policy : ReleasePolicy) : Except ForgeError Unit :=
  failIf (policy.minAttestations < adoptionMinAttestations ∨
    policy.timelockMs < adoptionMinTimelockMs) .badObject

structure VerifiedRelease where
  id : ObjectId
  version : String
  artifact : Manifest
  attesters : UInt32

/-- Read the version, the branch, and the digests of the artifact and its recipe. -/
def releasePayload : Reader ForgeError (String × String × Bytes × Bytes) := do
  let version ← takeStr
  let branch ← takeStr
  lift (failIf (maxVersionBytes < (utf8 version).length ∨ version = "") .badObject)
  lift (failIf (¬ validName branch ∨ maxVersionBytes < (utf8 branch).length) .badObject)
  let artifact ← take .badObject 32
  let recipe ← take .badObject 32
  return (version, branch, artifact, recipe)

/-- What publishing a release signs. The version is not looked at beyond its length. -/
def release (version : String) (projectId : ObjectId) (branch : String)
    (sourceCommit artifactManifest : ObjectId) (artifactDigest recipeDigest : Bytes)
    (timestampMs sequence : UInt64) : Except ForgeError ObjectBuilder := do
  failIf (maxVersionBytes < (utf8 version).length ∨ maxVersionBytes < (utf8 branch).length)
    .fieldTooLarge
  failIf (¬ validName branch) .badName
  return {
    objectType := .release
    timestampMs
    sequence
    links := [⟨"project", projectId⟩, ⟨"commit", sourceCommit⟩, ⟨"artifact", artifactManifest⟩]
    payload := .pub (framed UInt32 (utf8 version) ++ framed UInt32 (utf8 branch) ++
      artifactDigest ++ recipeDigest) }

/-- What attesting a release signs. -/
def attest (releaseId : ObjectId) (artifactDigest : Bytes) (timestampMs sequence : UInt64) :
    ObjectBuilder where
  objectType := .custom attestType
  timestampMs := timestampMs
  sequence := sequence
  links := [⟨"release", releaseId⟩]
  payload := .pub artifactDigest

def parseReleasePayload (rel : Object) : Except ForgeError (String × String × Bytes × Bytes) := do
  let bytes ← publicBytes rel
  whole releasePayload .badObject bytes

section

variable [KeyPrimitives]

/-- Count the author of what is stored under an identifier, if it attests the artifact. -/
def countAttester (s : Store) (oracle : IdentityOracle) (artifact : Bytes) (author : String)
    (attesters : List String) (id : ObjectId) : Except ForgeError (List String) := do
  let a ← (s.get id).mapError .store
  return if a.objectType = .custom attestType ∧ a.payload = .pub artifact ∧
      authorVerified oracle a ∧ a.authorHuman.scid ≠ author ∧ a.authorHuman.scid ∉ attesters then
    attesters ++ [a.authorHuman.scid]
  else attesters

/-- The moment before which a release is not adopted. The addition saturates. -/
def timelockEnd (rel : Object) (policy : ReleasePolicy) : ℕ :=
  min (rel.timestampMs.toNat + policy.timelockMs.toNat) (2 ^ 64 - 1)

def verifyReleaseArtifactOnly (s : Store) (oracle : IdentityOracle) (releaseId : ObjectId)
    (policy : ReleasePolicy) : Except ForgeError VerifiedRelease := do
  let rel ← (s.get releaseId).mapError .store
  failIf (rel.objectType ≠ .release) .badObject
  failIf (¬ authorVerified oracle rel) .badObject
  let (version, _, artifactDigest, _) ← parseReleasePayload rel
  failIf (policy.nowMs.toNat < timelockEnd rel policy) .timelockActive
  let attesters ← (s.linkingTo releaseId).foldlM
    (countAttester s oracle artifactDigest rel.authorHuman.scid) []
  failIf (UInt32.ofNat attesters.length < policy.minAttestations)
    (.notEnoughAttestations policy.minAttestations (UInt32.ofNat attesters.length))
  let manifestId ← okOr (linked rel "artifact") .badObject
  let o ← (s.get manifestId).mapError .store
  let manifest ← (readManifest o).mapError .media
  failIf (manifest.digest ≠ artifactDigest) .artifactUnavailable
  let _ ← (assemble s manifest).mapError fun _ => .artifactUnavailable
  return ⟨releaseId, version, manifest, UInt32.ofNat attesters.length⟩

def verifyGovernedRelease (s : Store) (oracle : IdentityOracle) (releaseId projectId : ObjectId)
    (branch : String) (policy : ReleasePolicy) : Except ForgeError VerifiedRelease := do
  policy.validateForAdoption
  let state ← resolveProject s oracle projectId
  failIf state.forksDetected .forkDetected
  let (_, canonical) ← okOr (state.branches.find? fun (b, _) => b = branch) .notCanonical
  let rel ← (s.get releaseId).mapError .store
  failIf (rel.objectType ≠ .release) .badObject
  failIf (linked rel "project" ≠ some projectId) .badObject
  let (_, claimedBranch, _, _) ← parseReleasePayload rel
  failIf (claimedBranch ≠ branch) .badObject
  let source ← okOr (linked rel "commit") .badObject
  failIf (source ≠ canonical) .notCanonical
  verifyReleaseArtifactOnly s oracle releaseId policy

/-! ### What a verified release is -/

/-- An object that attests an artifact for somebody else than an author. -/
structure Attests (oracle : IdentityOracle) (artifact : Bytes) (author : String) (a : Object) :
    Prop where
  objectType : a.objectType = .custom attestType
  payload : a.payload = .pub artifact
  verified : authorVerified oracle a = true
  other : a.authorHuman.scid ≠ author

/-- The identities that attest the artifact of a release, other than its author. -/
def Attester (s : Store) (oracle : IdentityOracle) (releaseId : ObjectId) (artifact : Bytes)
    (author scid : String) : Prop :=
  ∃ id ∈ s.linkingTo releaseId, ∃ a, s.get id = .ok a ∧ Attests oracle artifact author a ∧
    a.authorHuman.scid = scid

variable {s : Store} {oracle : IdentityOracle} {releaseId : ObjectId} {policy : ReleasePolicy}
  {projectId : ObjectId} {v : VerifiedRelease} {artifact : Bytes} {branch : String}
  {author : String}

lemma countAttester_ok {attesters attesters' : List String}
    {id : ObjectId} : countAttester s oracle artifact author attesters id = .ok attesters' ↔
      ∃ a, s.get id = .ok a ∧
        (Attests oracle artifact author a ∧ a.authorHuman.scid ∉ attesters ∧
            attesters' = attesters ++ [a.authorHuman.scid] ∨
          ¬ (Attests oracle artifact author a ∧ a.authorHuman.scid ∉ attesters) ∧
            attesters' = attesters) := by
  rw [countAttester, bind_ok]
  refine exists_congr fun a => and_congr mapError_ok ?_
  have hiff : (a.objectType = .custom attestType ∧ a.payload = .pub artifact ∧
      authorVerified oracle a = true ∧ a.authorHuman.scid ≠ author ∧
        a.authorHuman.scid ∉ attesters) ↔
      Attests oracle artifact author a ∧ a.authorHuman.scid ∉ attesters :=
    ⟨fun ⟨ht, hp, hv, ho, hn⟩ => ⟨⟨ht, hp, hv, ho⟩, hn⟩,
      fun ⟨⟨ht, hp, hv, ho⟩, hn⟩ => ⟨ht, hp, hv, ho, hn⟩⟩
  rw [pure_ok]
  by_cases hcounts : Attests oracle artifact author a ∧ a.authorHuman.scid ∉ attesters
  · rw [if_pos (hiff.mpr hcounts)]
    simp [hcounts, eq_comm]
  · rw [if_neg (mt hiff.mp hcounts), ← and_assoc]
    simp [hcounts, eq_comm]

/-- Those who are counted are those who attest, once each. -/
lemma countAttesters_spec {attesters : List String}
    (h : (s.linkingTo releaseId).foldlM (countAttester s oracle artifact author) [] = .ok attesters) :
    attesters.Nodup ∧ ∀ scid, scid ∈ attesters ↔
      Attester s oracle releaseId artifact author scid := by
  have hrun : ∀ (ids : List ObjectId) (acc : List String),
      ids.foldlM (countAttester s oracle artifact author) acc = .ok attesters → acc.Nodup →
      attesters.Nodup ∧ ∀ scid, scid ∈ attesters ↔ scid ∈ acc ∨
        ∃ id ∈ ids, ∃ a, s.get id = .ok a ∧ Attests oracle artifact author a ∧
          a.authorHuman.scid = scid := by
    intro ids
    induction ids with
    | nil =>
      rintro acc ⟨⟩ hacc
      exact ⟨hacc, by simp⟩
    | cons id ids ih =>
      intro acc hfold hacc
      obtain ⟨acc', hcount, hfold⟩ := bind_ok.mp hfold
      obtain ⟨a, ha, hcases⟩ := countAttester_ok.mp hcount
      have hone : acc'.Nodup ∧ ∀ scid, scid ∈ acc' ↔ scid ∈ acc ∨
          Attests oracle artifact author a ∧ a.authorHuman.scid = scid := by
        rcases hcases with ⟨hattests, hnew, rfl⟩ | ⟨hold, rfl⟩
        · exact ⟨List.concat_eq_append ▸ hacc.concat hnew, by simp [hattests, eq_comm]⟩
        · refine ⟨hacc, fun scid => ⟨.inl, ?_⟩⟩
          rintro (hmem | ⟨hattests, rfl⟩)
          · exact hmem
          · exact not_not.mp fun hnew => hold ⟨hattests, hnew⟩
      obtain ⟨hnodup, hmem⟩ := ih acc' hfold hone.1
      refine ⟨hnodup, fun scid => ?_⟩
      rw [hmem, hone.2, or_assoc, List.exists_mem_cons_iff, ha]
      simp
  simpa [Attester] using hrun _ [] h List.nodup_nil

/-- A release whose artifact is complete and attested, past its timelock. -/
structure Checked (s : Store) (oracle : IdentityOracle) (releaseId : ObjectId)
    (policy : ReleasePolicy) (rel : Object) (branch : String) (v : VerifiedRelease) : Prop where
  get_eq : s.get releaseId = .ok rel
  objectType : rel.objectType = .release
  verified : authorVerified oracle rel = true
  payload : ∃ recipe, parseReleasePayload rel = .ok (v.version, branch, v.artifact.digest, recipe)
  timelock : timelockEnd rel policy ≤ policy.nowMs.toNat
  attested : ∃ attesters, (s.linkingTo releaseId).foldlM
      (countAttester s oracle v.artifact.digest rel.authorHuman.scid) [] = .ok attesters ∧
    policy.minAttestations ≤ UInt32.ofNat attesters.length ∧
    v.attesters = UInt32.ofNat attesters.length
  artifact : ∃ manifestId o, linked rel "artifact" = some manifestId ∧
    s.get manifestId = .ok o ∧ readManifest o = .ok v.artifact
  complete : ∃ out, assemble s v.artifact = .ok out
  id_eq : v.id = releaseId

lemma verifyReleaseArtifactOnly_ok :
    verifyReleaseArtifactOnly s oracle releaseId policy = .ok v ↔
      ∃ rel branch, Checked s oracle releaseId policy rel branch v := by
  simp only [verifyReleaseArtifactOnly, ↓failIf_bind_ok, bind_ok, mapError_ok, okOr_ok,
    pure_ok, not_not, not_lt, UInt32.not_lt]
  constructor
  · rintro ⟨rel, hrel, htype, hverified, ⟨version, branch, artifact, recipe⟩, hpayload, htimelock,
      attesters, hattesters, henough, manifestId, hlinked, o, ho, manifest, hmanifest, rfl, out,
      hout, rfl⟩
    exact ⟨rel, branch, hrel, htype, hverified, ⟨recipe, hpayload⟩, htimelock, ⟨attesters,
      hattesters, henough, rfl⟩, ⟨manifestId, o, hlinked, ho, hmanifest⟩, ⟨out, hout⟩, rfl⟩
  · rintro ⟨rel, branch, h⟩
    obtain ⟨recipe, hpayload⟩ := h.payload
    obtain ⟨attesters, hattesters, henough, hcount⟩ := h.attested
    obtain ⟨manifestId, o, hlinked, ho, hmanifest⟩ := h.artifact
    obtain ⟨out, hout⟩ := h.complete
    refine ⟨rel, h.get_eq, h.objectType, h.verified, _, hpayload, h.timelock, attesters, hattesters,
      henough, manifestId, hlinked, o, ho, v.artifact, hmanifest, rfl, out, hout, ?_⟩
    rw [← h.id_eq, ← hcount]

/-- A release of what governance made the head of a branch, without a fork. -/
structure Governed (s : Store) (oracle : IdentityOracle) (releaseId projectId : ObjectId)
    (branch : String) (policy : ReleasePolicy) (rel : Object) (v : VerifiedRelease) : Prop
    extends Checked s oracle releaseId policy rel branch v where
  policy_valid : policy.validateForAdoption = .ok ()
  project_eq : linked rel "project" = some projectId
  canonical : ∃ fin commit, resolveProject s oracle projectId = .ok fin ∧
    fin.forksDetected = false ∧
    fin.branches.find? (fun (b, _) => b = branch) = some (branch, commit) ∧
    linked rel "commit" = some commit

lemma verifyGovernedRelease_ok :
    verifyGovernedRelease s oracle releaseId projectId branch policy = .ok v ↔
      ∃ rel, Governed s oracle releaseId projectId branch policy rel v := by
  simp only [verifyGovernedRelease, ↓failIf_bind_ok, bind_ok, mapError_ok, okOr_ok,
    not_not, Bool.not_eq_true, verifyReleaseArtifactOnly_ok]
  constructor
  · rintro ⟨⟨⟩, hpolicy, fin, hfin, hforks, ⟨b, canonical⟩, hfind, rel, hrel, htype, hproject,
      ⟨version, claimed, artifact, recipe⟩, hpayload, rfl, source, hsource, rfl, rel', branch',
      hchecked⟩
    obtain rfl : rel = rel' := Except.ok.inj (hrel.symm.trans hchecked.get_eq)
    obtain ⟨recipe', hpayload'⟩ := hchecked.payload
    obtain rfl : branch' = claimed :=
      congrArg (fun p => p.2.1) (Except.ok.inj (hpayload'.symm.trans hpayload))
    have hb := List.find?_some hfind
    obtain rfl : b = branch' := of_decide_eq_true hb
    exact ⟨rel, hchecked, hpolicy, hproject, fin, source, hfin, hforks, hfind, hsource⟩
  · rintro ⟨rel, h⟩
    obtain ⟨fin, commit, hfin, hforks, hfind, hcommit⟩ := h.canonical
    obtain ⟨recipe, hpayload⟩ := h.payload
    exact ⟨(), h.policy_valid, fin, hfin, hforks, _, hfind, rel, h.get_eq, h.objectType,
      h.project_eq, _, hpayload, rfl, commit, hcommit, rfl, rel, branch, h.toChecked⟩

/-! ### Where the fork error comes from -/

section

omit [KeyPrimitives]

lemma avoids_publicBytes (o : Object) : Fallible.Avoids .forkDetected (publicBytes o) := by
  rw [publicBytes]
  split
  · exact avoids_ok _ _
  · exact avoids_error (by simp)

lemma avoids_takeStr : Codec.Avoids .forkDetected takeStr :=
  (avoids_readFramed (by simp) (by simp) _ _).bind fun _ => avoids_lift (avoids_okOr (by simp))

lemma avoids_validPolicy (policy : Policy) :
    Fallible.Avoids .forkDetected ((validPolicy policy).mapError fun _ => ForgeError.badObject) :=
  avoids_mapError (by simp)

end

lemma avoids_genesisPayload : Codec.Avoids .forkDetected genesisPayload := by
  have hmember : Codec.Avoids .forkDetected takeDid :=
    avoids_takeStr.bind fun _ => avoids_lift (avoids_mapError (by simp))
  have hpolicy : Codec.Avoids .forkDetected decodePolicy := by
    refine (avoids_word (by simp) _).bind fun _ => ?_
    refine (avoids_readCount (by simp) (by simp) _ _).bind fun n => ?_
    refine (avoids_lift (avoids_failIf (by simp))).bind fun _ => ?_
    exact (avoids_readMany hmember n).bind fun _ => avoids_pure _ _
  refine avoids_takeStr.bind fun name => (avoids_lift (avoids_failIf (by simp))).bind fun _ => ?_
  refine hpolicy.bind fun policy => (avoids_lift (avoids_validPolicy policy)).bind fun _ => ?_
  exact avoids_pure _ _

lemma avoids_genesisState (s : Store) (oracle : IdentityOracle) (projectId : ObjectId) :
    Fallible.Avoids .forkDetected (genesisState s oracle projectId) := by
  refine (avoids_mapError (by simp)).bind fun genesis _ => ?_
  refine (avoids_failIf (by simp)).bind fun _ _ => (avoids_failIf (by simp)).bind fun _ _ => ?_
  refine (avoids_publicBytes genesis).bind fun bytes _ => ?_
  exact (avoids_genesisPayload.whole (by simp) bytes).bind fun _ _ => avoids_ok _ _

lemma avoids_applyEntry (s : Store) (e : Object) (policy : Policy)
    (branches : List (String × ObjectId)) :
    Fallible.Avoids .forkDetected (applyEntry s e policy branches) := by
  refine (avoids_okOr (by simp)).bind fun entry _ => ?_
  cases entry with
  | merge =>
    refine (avoids_okOr (by simp)).bind fun _ _ => (avoids_mapError (by simp)).bind fun _ _ => ?_
    refine (avoids_okOr (by simp)).bind fun _ _ => (avoids_okOr (by simp)).bind fun _ _ => ?_
    exact avoids_ok _ _
  | amend newPolicy => exact avoids_ok _ _

lemma avoids_step (s : Store) (oracle : IdentityOracle) (projectId : ObjectId)
    (st : ProjectState) : Fallible.Avoids .forkDetected (step s oracle projectId st) := by
  obtain ⟨valid, hvalid, -⟩ := exists_validEntries s oracle projectId st.policy st.tip
  rw [step, hvalid, ok_bind]
  cases winner valid with
  | none => exact avoids_ok _ _
  | some e => exact (avoids_applyEntry s e st.policy st.branches).bind fun _ _ => avoids_ok _ _

/-- Resolving a project does not raise it. -/
lemma avoids_resolveProject (s : Store) (oracle : IdentityOracle) (projectId : ObjectId) :
    Fallible.Avoids .forkDetected (resolveProject s oracle projectId) := by
  have hrounds : ∀ rounds st,
      Fallible.Avoids .forkDetected (resolveFrom s oracle projectId rounds st) := by
    intro rounds
    induction rounds with
    | zero => exact fun st => avoids_error (by simp)
    | succ rounds ih =>
      refine fun st => (avoids_step s oracle projectId st).bind fun next _ => ?_
      cases next with
      | none => exact avoids_ok _ _
      | some st' => exact ih st'
  exact (avoids_genesisState s oracle projectId).bind fun st _ => hrounds _ st

omit [KeyPrimitives] in
lemma avoids_parseReleasePayload (rel : Object) :
    Fallible.Avoids .forkDetected (parseReleasePayload rel) := by
  refine (avoids_publicBytes rel).bind fun bytes _ => Codec.Avoids.whole ?_ (by simp) bytes
  refine avoids_takeStr.bind fun _ => avoids_takeStr.bind fun _ => ?_
  refine (avoids_lift (avoids_failIf (by simp))).bind fun _ => ?_
  refine (avoids_lift (avoids_failIf (by simp))).bind fun _ => ?_
  refine (avoids_take (by simp) 32).bind fun _ => (avoids_take (by simp) 32).bind fun _ => ?_
  exact avoids_pure _ _

/-- Nor do the checks of the artifact. -/
lemma avoids_verifyReleaseArtifactOnly (s : Store) (oracle : IdentityOracle) (releaseId : ObjectId)
    (policy : ReleasePolicy) :
    Fallible.Avoids .forkDetected (verifyReleaseArtifactOnly s oracle releaseId policy) := by
  refine (avoids_mapError (by simp)).bind fun rel _ => ?_
  refine (avoids_failIf (by simp)).bind fun _ _ => (avoids_failIf (by simp)).bind fun _ _ => ?_
  refine (avoids_parseReleasePayload rel).bind fun _ _ => ?_
  refine (avoids_failIf (by simp)).bind fun _ _ => ?_
  refine (avoids_foldlM (fun attesters id => (avoids_mapError (by simp)).bind fun _ _ =>
    avoids_ok _ _) _ _).bind fun _ _ => ?_
  refine (avoids_failIf (by simp)).bind fun _ _ => (avoids_okOr (by simp)).bind fun _ _ => ?_
  refine (avoids_mapError (by simp)).bind fun _ _ => (avoids_mapError (by simp)).bind fun _ _ => ?_
  refine (avoids_failIf (by simp)).bind fun _ _ => (avoids_mapError (by simp)).bind fun _ _ => ?_
  exact avoids_ok _ _

/-- A release is refused for a fork exactly when the project forked. -/
lemma verifyGovernedRelease_eq_forkDetected :
    verifyGovernedRelease s oracle releaseId projectId branch policy = .error .forkDetected ↔
      policy.validateForAdoption = .ok () ∧
        ∃ fin, resolveProject s oracle projectId = .ok fin ∧ fin.forksDetected = true := by
  rw [verifyGovernedRelease, bind_error]
  constructor
  · rintro (h | ⟨⟨⟩, hpolicy, h⟩)
    · exact absurd h (avoids_failIf (by simp))
    refine ⟨hpolicy, ?_⟩
    rcases bind_error.mp h with h | ⟨fin, hfin, h⟩
    · exact absurd h (avoids_resolveProject s oracle projectId)
    rcases bind_error.mp h with h | ⟨⟨⟩, -, h⟩
    · exact ⟨fin, hfin, (failIf_error.mp h).1⟩
    refine absurd h ?_
    refine (avoids_okOr (by simp)).bind fun _ _ => (avoids_mapError (by simp)).bind fun rel _ => ?_
    refine (avoids_failIf (by simp)).bind fun _ _ => (avoids_failIf (by simp)).bind fun _ _ => ?_
    refine (avoids_parseReleasePayload rel).bind fun _ _ => ?_
    refine (avoids_failIf (by simp)).bind fun _ _ => (avoids_okOr (by simp)).bind fun _ _ => ?_
    refine (avoids_failIf (by simp)).bind fun _ _ => ?_
    exact avoids_verifyReleaseArtifactOnly s oracle releaseId policy
  · rintro ⟨hpolicy, fin, hfin, hforks⟩
    refine .inr ⟨(), hpolicy, bind_error.mpr (.inr ⟨fin, hfin, bind_error.mpr (.inl ?_)⟩)⟩
    exact failIf_error.mpr ⟨hforks, rfl⟩

end

end Mininet.Forge

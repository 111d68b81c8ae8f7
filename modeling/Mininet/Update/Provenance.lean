import Mininet.Update.Adoption

/-!
# Adopting with build provenance

A builder records how a commit was built and what came out. On top of the other gates a device can
ask that enough identities built the artifact of a release from its commit. Attestations of the
author of the release are not counted. Builds of the author of the commit are not counted either,
but those of the author of the release are, when somebody else made the commit.
-/

namespace Mininet.Update

open Codec Fallible Stateful Identity Objects Forge List
open Controller (SampleMember)

def provenanceType : String := "mini/build-provenance"

def maxGroupBytes : ℕ := 128

def maxOutputs : ℕ := 1024

/-- Why a record of a build is refused. -/
inductive ProvenanceError where
  | noOutputs
  | badGroup
  | badTimeRange
  deriving DecidableEq

/-- The claim of a builder about how something was built. -/
structure BuildProvenance where
  environmentDigest : Bytes
  commandsDigest : Bytes
  outputDigests : List Bytes
  reproducibilityGroup : String
  networkEnabled : Bool
  startedMs : UInt64
  finishedMs : UInt64

namespace BuildProvenance

def validate (p : BuildProvenance) : Except ProvenanceError Unit := do
  failIf (p.outputDigests = [] ∨ maxOutputs < p.outputDigests.length) .noOutputs
  failIf (p.reproducibilityGroup = "" ∨ maxGroupBytes < (utf8 p.reproducibilityGroup).length)
    .badGroup
  failIf (p.finishedMs < p.startedMs) .badTimeRange

def encode (p : BuildProvenance) : Bytes :=
  p.environmentDigest ++ p.commandsDigest ++ countBytes UInt32 p.outputDigests.length ++
    p.outputDigests.flatMap id ++ framed UInt32 (utf8 p.reproducibilityGroup) ++
    [if p.networkEnabled then 1 else 0] ++ toBeBytes p.startedMs ++ toBeBytes p.finishedMs

/-- Read a claim. Everything that is wrong with it makes it nothing. -/
def reader : Reader Unit BuildProvenance := do
  let environmentDigest ← take () 32
  let commandsDigest ← take () 32
  let n ← readCount () () UInt32 maxOutputs
  lift (failIf (n = 0) ())
  let outputDigests ← readMany (take () 32) n
  let raw ← readFramed () () UInt32 maxGroupBytes
  let reproducibilityGroup ← lift (okOr (ofUtf8 raw) ())
  lift (failIf (reproducibilityGroup = "") ())
  let flag ← word () UInt8
  lift (failIf (flag ≠ 0 ∧ flag ≠ 1) ())
  let startedMs ← word () UInt64
  let finishedMs ← word () UInt64
  lift (failIf (finishedMs < startedMs) ())
  return ⟨environmentDigest, commandsDigest, outputDigests, reproducibilityGroup, flag = 1,
    startedMs, finishedMs⟩

def decode (bytes : Bytes) : Option BuildProvenance := (whole reader () bytes).toOption

/-- The digests have their length. -/
structure Sized (p : BuildProvenance) : Prop where
  environment : p.environmentDigest.length = 32
  commands : p.commandsDigest.length = 32
  outputs : ∀ d ∈ p.outputDigests, d.length = 32

lemma validate_ok {p : BuildProvenance} :
    p.validate = .ok () ↔ (p.outputDigests ≠ [] ∧ p.outputDigests.length ≤ maxOutputs) ∧
      (p.reproducibilityGroup ≠ "" ∧ (utf8 p.reproducibilityGroup).length ≤ maxGroupBytes) ∧
      p.startedMs ≤ p.finishedMs := by
  rw [validate, failIf_bind_ok, failIf_bind_ok, failIf_ok]
  simp only [not_or, not_lt, UInt64.not_lt, ne_eq]

/-- What is read back is what was recorded, and only what may be recorded is read. -/
lemma decodes_reader : Decodes reader encode fun p => p.validate = .ok () ∧ p.Sized := by
  intro bs p rest
  rw [reader, (decodes_take () 32).bind]
  simp only [(decodes_take () 32).bind, lift_bind_ok, failIf_ok, okOr_ok, run_pure_ok,
    (decodes_readCount () () UInt32 (by decide : maxOutputs < _)).bind,
    (decodes_readMany (decodes_take () 32) _).bind, (decodes_word () _).bind, toBeBytes_byte,
    (decodes_readFramed () () UInt32 (by decide : maxGroupBytes < _)).bind, validate_ok]
  constructor
  · rintro ⟨env, henv, _, rfl, cmd, hcmd, _, rfl, n, hn, _, rfl, ⟨⟩, hpos, outs, ⟨rfl, houts⟩, _,
      rfl, raw, hraw, _, rfl, group, hgroup, ⟨⟩, hne, flag, -, _, rfl, ⟨⟩, hflag, started, -, _, rfl,
      finished, -, _, rfl, ⟨⟩, hle, rfl, rfl⟩
    rw [← utf8_of_ofUtf8 hgroup] at hraw ⊢
    have hbit : (if decide (flag = 1) then 1 else 0) = flag := by
      rcases not_and_or.mp hflag with hflag | hflag <;> rw [not_not.mp hflag] <;> decide
    refine ⟨?_, ⟨⟨fun hnil => hpos (congrArg List.length hnil), hn⟩, ⟨hne, hraw⟩,
      UInt64.not_lt.mp hle⟩, henv, hcmd, houts⟩
    simp only [encode, hbit, id, append_assoc]
  · rintro ⟨rfl, ⟨⟨hnil, hn⟩, ⟨hne, hraw⟩, hle⟩, hsized⟩
    have hpos : ¬ p.outputDigests.length = 0 := mt length_eq_zero_iff.mp hnil
    have hflag : ¬ ((if p.networkEnabled then (1 : UInt8) else 0) ≠ 0 ∧
        (if p.networkEnabled then (1 : UInt8) else 0) ≠ 1) := by
      cases p.networkEnabled <;> decide
    have hbit : p.networkEnabled = decide ((if p.networkEnabled then (1 : UInt8) else 0) = 1) := by
      cases p.networkEnabled <;> decide
    simp only [encode, append_assoc]
    refine ⟨p.environmentDigest, hsized.environment, _, rfl, p.commandsDigest, hsized.commands, _,
      rfl, _, hn, _, rfl, (), hpos, p.outputDigests, ⟨rfl, hsized.outputs⟩, _, rfl, _, hraw, _, rfl,
      p.reproducibilityGroup, ofUtf8_utf8 _, (), hne, _, trivial, _, rfl, (), hflag, p.startedMs,
      trivial, _, rfl, p.finishedMs, trivial, rest, rfl, (), UInt64.not_lt.mpr hle, ?_, rfl⟩
    rw [← hbit]

end BuildProvenance

/-- What recording a build signs. -/
def recordProvenance (subject : ObjectId) (provenance : BuildProvenance)
    (timestampMs sequence : UInt64) : Except ProvenanceError ObjectBuilder := do
  provenance.validate
  return {
    objectType := .custom provenanceType
    timestampMs
    sequence
    links := [⟨"subject", subject⟩]
    payload := .pub provenance.encode }

/-- A record of a build, and the identity that made it. -/
structure ProvenanceRecord where
  builder : Did
  provenance : BuildProvenance

/-- How many builds a device asks for. -/
structure ProvenancePolicy where
  minIndependentBuilders : UInt32

section

variable [KeyPrimitives] {oracle : IdentityOracle} {roots : Finset String} {s : Store}

/-- The record that is stored under an identifier, if it counts. -/
def provenanceRecord (s : Store) (oracle : IdentityOracle) (id : ObjectId) :
    Option ProvenanceRecord :=
  match s.get id with
  | .error _ => none
  | .ok o    =>
    if o.objectType = .custom provenanceType ∧ authorVerified oracle o then
      match o.payload with
      | .encrypted _ => none
      | .pub bytes   => (BuildProvenance.decode bytes).map (ProvenanceRecord.mk o.authorHuman)
    else none

/-- The records of builds of a subject. -/
def listProvenance (s : Store) (oracle : IdentityOracle) (subject : ObjectId) :
    List ProvenanceRecord :=
  (s.linkingTo subject).filterMap (provenanceRecord s oracle)

/-- How many identities other than the author of a subject built something from it. -/
def independentAgreement (s : Store) (oracle : IdentityOracle) (subject : ObjectId)
    (expectedOutput : Bytes) : UInt32 :=
  let excludedAuthor := (s.get subject).toOption.map fun o => o.authorHuman.asStr
  let agreeing := (listProvenance s oracle subject).filter fun record =>
    expectedOutput ∈ record.provenance.outputDigests ∧
      excludedAuthor ≠ some record.builder.asStr
  -- one identity counts once
  UInt32.ofNat (agreeing.map fun record => record.builder.scid).dedup.length

def releaseSourceCommit (s : Store) (releaseId : ObjectId) : Except ForgeError ObjectId := do
  let rel ← (s.get releaseId).mapError .store
  okOr (linked rel "commit") .badObject

/-- Whether a release could be adopted now by a device that asks for builds. -/
def AdoptionState.evaluateWithProvenance (st : AdoptionState) (q : Request)
    (provenancePolicy : ProvenancePolicy) : AdoptionDecision :=
  match st.evaluate q with
  | .adoptable verified =>
    match releaseSourceCommit q.store q.candidate with
    | .error e         => .rejected e
    | .ok sourceCommit =>
      let agreement := independentAgreement q.store q.oracle sourceCommit verified.artifact.digest
      if agreement < provenancePolicy.minIndependentBuilders then
        .notYetAdoptable
          (.notEnoughProvenanceAgreement provenancePolicy.minIndependentBuilders agreement)
      else .adoptable verified
  | decision => decision

/-! ### Who built an artifact -/

/-- An object that records a build of an output. -/
structure Builds (oracle : IdentityOracle) (output : Bytes) (o : Object) : Prop where
  objectType : o.objectType = .custom provenanceType
  verified : authorVerified oracle o = true
  payload : ∃ p : BuildProvenance, o.payload = .pub p.encode ∧ p.validate = .ok () ∧ p.Sized ∧
    output ∈ p.outputDigests

/-- The identities with a record of a build of an output from a subject. -/
def Builder (s : Store) (oracle : IdentityOracle) (subject : ObjectId) (output : Bytes)
    (scid : String) : Prop :=
  ∃ id ∈ s.linkingTo subject, ∃ o, s.get id = .ok o ∧ Builds oracle output o ∧
    o.authorHuman.scid = scid

/-- Those who built an output, as a set. -/
def builders (s : Store) (oracle : IdentityOracle) (subject : ObjectId) (output : Bytes) :
    Finset String :=
  (((listProvenance s oracle subject).filter fun record =>
    output ∈ record.provenance.outputDigests).map fun record => record.builder.scid).toFinset

lemma provenanceRecord_some {id : ObjectId} {record : ProvenanceRecord} :
    provenanceRecord s oracle id = some record ↔
      ∃ o, s.get id = .ok o ∧ o.objectType = .custom provenanceType ∧
        authorVerified oracle o = true ∧ o.payload = .pub record.provenance.encode ∧
        record.provenance.validate = .ok () ∧ record.provenance.Sized ∧
        record.builder = o.authorHuman := by
  have hdecode : ∀ {bytes p}, BuildProvenance.decode bytes = some p ↔
      bytes = p.encode ∧ p.validate = .ok () ∧ p.Sized := by
    intro bytes p
    rw [BuildProvenance.decode, toOption_some]
    exact BuildProvenance.decodes_reader.whole_ok
  rw [provenanceRecord]
  constructor
  · intro h
    split at h
    next => cases h
    next o ho =>
      split_ifs at h with hcounts
      split at h
      next => cases h
      next bytes hpayload =>
        obtain ⟨p, hp, rfl⟩ := Option.map_eq_some_iff.mp h
        obtain ⟨rfl, hvalid, hsized⟩ := hdecode.mp hp
        exact ⟨o, ho, hcounts.1, hcounts.2, hpayload, hvalid, hsized, rfl⟩
  · rintro ⟨o, ho, htype, hverified, hpayload, hvalid, hsized, hbuilder⟩
    rw [ho]
    dsimp only
    rw [if_pos ⟨htype, hverified⟩, hpayload]
    dsimp only
    rw [hdecode.mpr ⟨rfl, hvalid, hsized⟩, Option.map_some, ← hbuilder]

lemma mem_builders {subject : ObjectId} {output : Bytes} {scid : String} :
    scid ∈ builders s oracle subject output ↔ Builder s oracle subject output scid := by
  simp only [builders, mem_toFinset, mem_map, mem_filter, listProvenance,
    mem_filterMap, provenanceRecord_some, decide_eq_true_eq]
  constructor
  · rintro ⟨record, ⟨⟨id, hid, o, ho, htype, hverified, hpayload, hvalid, hsized, hbuilder⟩,
      houtput⟩, rfl⟩
    exact ⟨id, hid, o, ho, ⟨htype, hverified, record.provenance, hpayload, hvalid, hsized, houtput⟩,
      by rw [hbuilder]⟩
  · rintro ⟨id, hid, o, ho, hbuilds, rfl⟩
    obtain ⟨p, hpayload, hvalid, hsized, houtput⟩ := hbuilds.payload
    exact ⟨⟨o.authorHuman, p⟩, ⟨⟨id, hid, o, ho, hbuilds.objectType, hbuilds.verified, hpayload,
      hvalid, hsized, rfl⟩, houtput⟩, rfl⟩

/-- The identity that made a subject, if it is stored. -/
def subjectAuthor (s : Store) (subject : ObjectId) : Option String :=
  (s.get subject).toOption.map fun o => o.authorHuman.scid

/-- The agreement counts the builders without the author of the subject. -/
lemma independentAgreement_eq (s : Store) (oracle : IdentityOracle) (subject : ObjectId)
    (output : Bytes) :
    independentAgreement s oracle subject output =
      UInt32.ofNat ((builders s oracle subject output).filter fun scid =>
        subjectAuthor s subject ≠ some scid).card := by
  have hauthor : ∀ d : Did, ((s.get subject).toOption.map fun o => o.authorHuman.asStr) =
      some d.asStr ↔ subjectAuthor s subject = some d.scid := by
    intro d
    rw [subjectAuthor, Option.map_eq_some_iff, Option.map_eq_some_iff]
    refine exists_congr fun o => and_congr_right fun _ => ⟨fun h => ?_, fun h => ?_⟩
    · rw [Did.asStr_injective h]
    · rw [Did.asStr, Did.asStr, h]
  rw [independentAgreement, ← card_toFinset]
  congr 2
  ext scid
  simp only [builders, mem_toFinset, mem_map, mem_filter, Finset.mem_filter,
    decide_eq_true_eq, ne_eq, hauthor]
  constructor
  · rintro ⟨record, ⟨hmem, houtput, hother⟩, rfl⟩
    exact ⟨⟨record, ⟨hmem, houtput⟩, rfl⟩, hother⟩
  · rintro ⟨⟨record, ⟨hmem, houtput⟩, rfl⟩, hother⟩
    exact ⟨record, ⟨hmem, houtput, hother⟩, rfl⟩

/-! ### Counting identities -/

/-- At least so many identities have a property. -/
def AtLeast (n : UInt32) (P : String → Prop) : Prop :=
  ∃ roots : Finset String, n.toNat ≤ roots.card ∧ ∀ scid ∈ roots, P scid

omit [KeyPrimitives] in
lemma atLeast_iff {n : UInt32} {P : String → Prop}
    (h : ∀ scid, scid ∈ roots ↔ P scid) : AtLeast n P ↔ n.toNat ≤ roots.card := by
  constructor
  · rintro ⟨some, hle, hsome⟩
    exact hle.trans (Finset.card_le_card fun scid hscid => (h scid).mpr (hsome scid hscid))
  · exact fun hle => ⟨roots, hle, fun scid => (h scid).mp⟩

omit [KeyPrimitives] in
/-- Leaving out one identity instead of another makes too few of them only when the one is among
exactly as many as are needed, and the other is not. -/
lemma le_card_erase_iff {excluded : Option String} {n : ℕ}
    (h : n ≤ (roots.filter fun scid => excluded ≠ some scid).card) (r : String) :
    n ≤ (roots.erase r).card ↔
      ¬ (r ∈ roots ∧ (∀ e ∈ excluded, e ∉ roots) ∧ roots.card = n) := by
  have hall : n ≤ roots.card := h.trans (Finset.card_filter_le _ _)
  by_cases hr : r ∈ roots
  · have hpos := Finset.card_pos.mpr ⟨r, hr⟩
    rw [Finset.card_erase_of_mem hr]
    by_cases hexcluded : ∀ e ∈ excluded, e ∉ roots
    · rw [and_iff_right hr, and_iff_right hexcluded]
      omega
    · obtain ⟨e, he, hmem⟩ : ∃ e ∈ excluded, e ∈ roots := by
        simpa using hexcluded
      have hsub : (roots.filter fun scid => excluded ≠ some scid) ⊆ roots.erase e := by
        intro scid hscid
        obtain ⟨hscid, hne⟩ := Finset.mem_filter.mp hscid
        exact Finset.mem_erase.mpr ⟨fun heq => hne (heq ▸ he), hscid⟩
      have hcard := Finset.card_le_card hsub
      rw [Finset.card_erase_of_mem hmem] at hcard
      exact iff_of_true (h.trans hcard) fun hnot => hnot.2.1 e he hmem
  · rw [Finset.erase_eq_of_notMem hr]
    exact iff_of_true hall fun hnot => hr hnot.1

lemma evaluateWithProvenance_eq_adoptable {st : AdoptionState} {q : Request}
    {provenancePolicy : ProvenancePolicy} {v : VerifiedRelease} :
    st.evaluateWithProvenance q provenancePolicy = .adoptable v ↔
      st.evaluate q = .adoptable v ∧ ∃ commit,
        releaseSourceCommit q.store q.candidate = .ok commit ∧
        provenancePolicy.minIndependentBuilders ≤
          independentAgreement q.store q.oracle commit v.artifact.digest := by
  rw [AdoptionState.evaluateWithProvenance]
  constructor
  · intro h
    split at h
    next w hw =>
      split at h
      next => cases h
      next commit hcommit =>
        dsimp only at h
        split_ifs at h with hfew
        cases h
        exact ⟨hw, commit, hcommit, UInt32.not_lt.mp hfew⟩
    next hnot => exact absurd h (hnot v)
  · rintro ⟨hv, commit, hcommit, henough⟩
    rw [hv]
    dsimp only
    rw [hcommit]
    exact if_neg (UInt32.not_lt.mpr henough)

end

/-! ### A release whose author builds it -/

/-- A claim of a build with one output. -/
def sampleBuild (output : Bytes) : BuildProvenance :=
  ⟨List.replicate 32 0, List.replicate 32 0, [output], "g", false, 0, 0⟩

lemma sampleBuild_valid (output : Bytes) : (sampleBuild output).validate = .ok () := by
  rw [BuildProvenance.validate_ok]
  exact ⟨⟨by simp [sampleBuild], by simp [sampleBuild, maxOutputs]⟩,
    ⟨by simp [sampleBuild], (by decide : (utf8 "g").length ≤ maxGroupBytes)⟩, UInt64.le_refl 0⟩

/-- The author of a release and another member record that they built it. -/
def sampleRecords [KeyPrimitives] (b r : SampleMember) (x : SampleRelease) :
    Option (List Object) := do
  let builder ←
    (recordProvenance x.project.commit.id (sampleBuild (blake3 []).bytes) 0 0).toOption
  let record ← make r builder
  let record' ← make b builder
  return [record, record']

/-- A release that two identities built, one of them its author. Neither made the commit. -/
lemma exists_sample_built :
    let := KeyPrimitives.sums
    ∃ (q : Request) (v : VerifiedRelease) (rel : Object) (commit : ObjectId) (author other : String),
      AdoptionState.Passes .new q v ∧ q.freshness.validate = .ok () ∧
      q.store.get q.candidate = .ok rel ∧ linked rel "commit" = some commit ∧
      subjectAuthor q.store commit = some author ∧
      [author, rel.authorHuman.scid, other].Nodup ∧
      builders q.store q.oracle commit v.artifact.digest = {rel.authorHuman.scid, other} := by
  intro _
  have := lawfulKeys_sums
  have hevaluates : evaluates [(0, 1), (2, 3), (5, 8)] (releaseChecks "1" sampleRecords) = true := by
    decide +kernel
  obtain ⟨oracle, policy, a, b, r, x, extra, h, hextra, hnodup⟩ :=
    exists_sample_published hevaluates
  simp only [sampleRecords, Option.bind_eq_bind, Option.bind_eq_some_iff, toOption_some,
    Option.pure_def, Option.some.injEq] at hextra
  obtain ⟨builder, hbuilder, record, hrecord, record', hrecord', rfl⟩ := hextra
  have hpublic : ∀ o ∈ [record, record'], Store.Public o := by
    simp only [forall_mem_cons]
    exact ⟨((h.vouched r (by simp)).accepted_of_make hrecord).1,
      ((h.vouched b (by simp)).accepted_of_make hrecord').1, nofun⟩
  have hrecord := (h.vouched r (by simp)).authored_of_make hrecord
  have hrecord' := (h.vouched b (by simp)).authored_of_make hrecord'
  let digest := (blake3 []).bytes
  have hdigest : digest.length = 32 := Vector.length_toList
  obtain ⟨⟨⟩, -, hbuilder⟩ := bind_ok.mp hbuilder
  cases hbuilder
  have htypes : ∀ o ∈ [record, record'], o.objectType = .custom provenanceType := by
    simp only [forall_mem_cons]
    exact ⟨hrecord.objectType_eq, hrecord'.objectType_eq, nofun⟩
  obtain ⟨v, hgoverned, -, hv⟩ := h.exists_governed [record, record'] hpublic
    (fun o ho => (htypes o ho).trans_ne (by simp [provenanceType, chainType])) hnodup (by simp)
  have hget : ∀ {id o}, (x.store [record, record']).get id = .ok o ↔ _ :=
    Store.get_inserted_iff (h.isPublic hpublic) hnodup
  have hlinking : ∀ {id}, id ∈ (x.store [record, record']).linkingTo x.project.commit.id ↔ _ :=
    Store.mem_linkingTo_inserted (h.isPublic hpublic) hnodup
  obtain ⟨hmap, -, -, -, hlinked, -⟩ := of_decide_eq_true h.published
  have hbuilders : builders (x.store [record, record']) oracle x.project.commit.id
      v.artifact.digest = {x.rel.authorHuman.scid, b.root.did.scid} := by
    ext scid
    rw [mem_builders, hv, h.author_eq, Finset.mem_insert, Finset.mem_singleton]
    constructor
    · rintro ⟨id, -, o, ho, hbuilds, rfl⟩
      rcases SampleRelease.mem_objects.mp (hget.mp ho).1 with hmem | hmem
      · have htype : o.objectType ∈ (x.objects []).map Object.objectType :=
          mem_map_of_mem hmem
        rw [hmap, hbuilds.objectType] at htype
        exact absurd htype (by decide)
      · simp only [mem_cons, not_mem_nil, or_false] at hmem
        rcases hmem with rfl | rfl
        · exact .inl (congrArg Did.scid hrecord.authorHuman_eq)
        · exact .inr (congrArg Did.scid hrecord'.authorHuman_eq)
    · have hmakes : ∀ {human : Did} {o : Object}, o ∈ [record, record'] →
          Authored oracle human { objectType := .custom provenanceType, links :=
            [⟨"subject", x.project.commit.id⟩], payload := .pub (sampleBuild digest).encode } o →
          Builder (x.store [record, record']) oracle x.project.commit.id digest human.scid := by
        intro human o ho hauthored
        have hmem : o ∈ x.objects [record, record'] := SampleRelease.mem_objects.mpr (.inr ho)
        refine ⟨o.id, hlinking.mpr ⟨o, hmem, rfl, ?_⟩, o, hget.mpr ⟨hmem, rfl⟩,
          ⟨hauthored.objectType_eq, hauthored.verified, sampleBuild digest, hauthored.payload_eq,
            sampleBuild_valid digest, ⟨length_replicate, length_replicate, ?_⟩,
            mem_singleton_self _⟩, by rw [hauthored.authorHuman_eq]⟩
        · rw [hauthored.links_eq]
          exact mem_singleton_self _
        · exact forall_mem_singleton.mpr hdigest
      rintro (rfl | rfl)
      · exact hmakes (by simp) hrecord
      · exact hmakes (by simp) hrecord'
  have hcommit : subjectAuthor (x.store [record, record']) x.project.commit.id =
      some a.root.did.scid := by
    have hmem : x.project.commit ∈ x.objects [record, record'] := by
      simp [SampleRelease.objects, SampleProject.objects]
    rw [subjectAuthor, hget.mpr ⟨hmem, rfl⟩, ← h.merging.committed.authorHuman_eq]
    rfl
  refine ⟨⟨_, oracle, x.rel.id, x.project.genesis.id, "m", sampleRules, ⟨1⟩, sampleRules.nowMs⟩,
    v, x.rel, x.project.commit.id, a.root.did.scid, b.root.did.scid,
    AdoptionState.passes_new (verifyGovernedRelease_ok.mpr ⟨x.rel, hgoverned⟩) rfl, rfl,
    hgoverned.get_eq, ?_, hcommit, ?_, hbuilders⟩
  · exact (List.cons.inj (List.cons.inj hlinked).2).1
  · have hperm : [a.root.did.scid, r.root.did.scid, b.root.did.scid].Perm
        ([a.root.did, b.root.did, r.root.did].map Did.scid) := (List.Perm.swap _ _ _).cons _
    rw [h.author_eq, hperm.nodup_iff]
    exact h.nodup_members.map fun d d' heq => congrArg Did.mk heq

lemma evaluateWithProvenance_of_passes [KeyPrimitives] {q : Request} {v : VerifiedRelease}
    {rel : Object} {commit : ObjectId} (provenancePolicy : ProvenancePolicy)
    (h : AdoptionState.Passes .new q v) (hrel : q.store.get q.candidate = .ok rel)
    (hcommit : linked rel "commit" = some commit)
    (henough : provenancePolicy.minIndependentBuilders ≤
      independentAgreement q.store q.oracle commit v.artifact.digest) :
    AdoptionState.new.evaluateWithProvenance q provenancePolicy = .adoptable v :=
  evaluateWithProvenance_eq_adoptable.mpr
    ⟨AdoptionState.evaluate_eq_adoptable.mpr ⟨not_mem_nil, h⟩, commit,
      bind_ok.mpr ⟨rel, mapError_ok.mpr hrel, okOr_ok.mpr hcommit⟩, henough⟩

/-- Both builders are counted. -/
lemma independentAgreement_of_builders [KeyPrimitives] {q : Request} {commit : ObjectId}
    {output : Bytes} {author r other : String} (hauthor : subjectAuthor q.store commit = some author)
    (hnodup : [author, r, other].Nodup)
    (hbuilders : builders q.store q.oracle commit output = {r, other}) :
    independentAgreement q.store q.oracle commit output = 2 ∧
      (builders q.store q.oracle commit output).card = 2 := by
  simp only [nodup_cons, mem_cons, not_mem_nil, or_false, not_or, not_false_eq_true,
    and_true, nodup_nil] at hnodup
  obtain ⟨⟨hr, hother⟩, hne⟩ := hnodup
  have hfilter : ({r, other} : Finset String).filter (fun scid => some author ≠ some scid) =
      {r, other} := by
    refine Finset.filter_true_of_mem fun scid hscid => ?_
    rcases Finset.mem_insert.mp hscid with rfl | hscid
    · exact fun heq => hr (Option.some.inj heq)
    · obtain rfl := Finset.mem_singleton.mp hscid
      exact fun heq => hother (Option.some.inj heq)
  rw [independentAgreement_eq, hbuilders, hauthor, hfilter, Finset.card_pair hne]
  exact ⟨rfl, rfl⟩

/-! ### What a device that asks for builds gets -/

section

variable [KeyPrimitives]

/-- What adopting with provenance is to guarantee for a release. -/
structure Independent (q : Request) (provenancePolicy : ProvenancePolicy) (rel : Object)
    (commit : ObjectId) (artifact : Bytes) : Prop where
  attested : AtLeast q.policy.minAttestations
    (Attester q.store q.oracle q.candidate artifact rel.authorHuman.scid)
  built : AtLeast provenancePolicy.minIndependentBuilders fun scid =>
    scid ≠ rel.authorHuman.scid ∧ Builder q.store q.oracle commit artifact scid
  canonical : ∃ fin, resolveProject q.store q.oracle q.projectId = .ok fin ∧
    fin.forksDetected = false ∧
    fin.branches.find? (fun (b, _) => b = q.branch) = some (q.branch, commit)

end

end Mininet.Update

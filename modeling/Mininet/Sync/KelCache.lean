import Mininet.Identity.Exchange
import Mininet.Lib.TreeMap
import Mininet.Identity.Sums
import Mininet.Objects.Signing

/-!
# The cache of logs

Key event logs travel as objects. A node keeps the logs it has verified and judges the objects of an
author by them: a longer log takes the place of the one it continues, and a log that does not
continue the one in the cache is refused. Logs are compared as events with their signature lists,
while verification passes over signatures that do not count. So a log that somebody else packaged
can keep out the one of the controller.
-/

namespace Mininet.Sync

open Codec Fallible Identity Objects List

def maxCachedKels : ℕ := 10000

def maxKelCarrierBytes : ℕ := 1024 * 1024

/-- The type of the objects that carry a log. -/
def kelCarrierType : ObjectType := .custom "mini/kel"

/-- Logs by identifier. -/
structure KelCache where
  kels : Std.ExtTreeMap String Kel

/-- What became of a carrier. -/
inductive CarrierAbsorb where
  /-- The log was taken, and the object is known to be its author's. -/
  | verifiedEnvelope
  /-- The log was taken. -/
  | kelOnly
  | rejected
  deriving DecidableEq

inductive IngestOutcome where
  | accepted
  | acceptedCarrier
  | acceptedKelOnly
  | unknownAuthor
  | invalid
  deriving DecidableEq

namespace KelCache

def new : KelCache := ⟨∅⟩

def insertVerified (cache : KelCache) (kel : Kel) : KelCache := ⟨cache.kels.insert kel.scid kel⟩

def get (cache : KelCache) (d : Did) : Option Kel := cache.kels[d.scid]?

def len (cache : KelCache) : ℕ := cache.kels.size

/-- Whether a log that verifies may be kept: there is room for it, or it continues the one that is
there. -/
def welcomes (cache : KelCache) (kel : Kel) : Bool :=
  match cache.kels[kel.scid]? with
  | none          => decide (cache.len < maxCachedKels)
  | some existing => existing.events.isPrefixOf kel.events

variable [KeyPrimitives]

/-- Whether an object is its author's, by the logs in the cache. -/
def proves (cache : KelCache) (o : Object) : Bool :=
  match cache.get o.authorHuman, cache.get o.authorDevice with
  | some root, some device => (verifyProvenance o root device).isOk
  | _, _                   => false

end KelCache

section

variable [KeyPrimitives] {o : Object}

/-- What wraps a log. -/
def carrierBuilder (kel : Kel) : ObjectBuilder where
  objectType := kelCarrierType
  payload := .pub kel.toBytes

/-- Wrap a log, signed with a device. -/
def kelCarrier (kel : Kel) (human : Did) (device : Controller) : Except SignFault Object :=
  (carrierBuilder kel).sign human device

/-- The log in a carrier, if the carrier is one by itself: the log verifies, it belongs to the
author or the device that the object names, and the device signed the object if it is its log. -/
def embedded (o : Object) : Option Kel := do
  guard (o.objectType = kelCarrierType)
  guard (¬ o.payload.isEncrypted ∧ o.payload.bytes.length ≤ maxKelCarrierBytes)
  let kel ← (Kel.fromBytes o.payload.bytes).toOption
  guard kel.verify.isOk
  guard (kel.did.asStr = o.authorDevice.asStr ∨ kel.did.asStr = o.authorHuman.asStr)
  guard (kel.did.asStr = o.authorDevice.asStr → (o.verifySignature kel).isOk)
  return kel

/-- Take the log of a carrier. A device proves its own carrier; what another carrier names has to be
known. -/
def KelCache.absorbCarrier (cache : KelCache) (o : Object) : CarrierAbsorb × KelCache :=
  match embedded o with
  | none     => (.rejected, cache)
  | some kel =>
    if cache.welcomes kel then
      let cache := cache.insertVerified kel
      if kel.did.asStr = o.authorDevice.asStr then (.verifiedEnvelope, cache)
      else if cache.proves o then (.verifiedEnvelope, cache)
      else (.kelOnly, cache)
    else (.rejected, cache)

/-- Judge an object by the cache, and take the log of a carrier. -/
def Ingest.check (cache : KelCache) (o : Object) : IngestOutcome × KelCache :=
  if o.objectType = kelCarrierType then
    match cache.absorbCarrier o with
    | (.verifiedEnvelope, cache) => (.acceptedCarrier, cache)
    | (.kelOnly, cache)          => (.acceptedKelOnly, cache)
    | (.rejected, cache)         => (.invalid, cache)
  else
    match cache.get o.authorHuman, cache.get o.authorDevice with
    | some root, some device =>
      if (verifyProvenance o root device).isOk then (.accepted, cache) else (.invalid, cache)
    | _, _                   => (.unknownAuthor, cache)

/-! ### What checking an object does -/

/-- An object that carries a log. -/
structure Carries (o : Object) (kel : Kel) : Prop where
  objectType : o.objectType = kelCarrierType
  isPublic : o.payload.isEncrypted = false
  length_le : o.payload.bytes.length ≤ maxKelCarrierBytes
  decoded : Kel.fromBytes o.payload.bytes = .ok kel
  verified : ∃ state, kel.verify = .ok state
  named : kel.did = o.authorDevice ∨ kel.did = o.authorHuman
  signed : kel.did = o.authorDevice → o.verifySignature kel = .ok ()

lemma embedded_some {kel : Kel} : embedded o = some kel ↔ Carries o kel := by
  simp only [embedded, Option.bind_eq_bind, Option.bind_eq_some_iff, Option.guard_eq_some',
    toOption_some, isOk_iff_exists, Did.asStr_injective.eq_iff]
  constructor
  · rintro ⟨-, htype, -, ⟨hpublic, hlength⟩, kel', hkel, -, hverified, -, hnamed, -, hsigned, h⟩
    obtain rfl := Option.some.inj h
    refine ⟨htype, by simpa using hpublic, hlength, hkel, hverified, hnamed, fun hown => ?_⟩
    obtain ⟨⟨⟩, hok⟩ := hsigned hown
    exact hok
  · rintro h
    exact ⟨(), h.objectType, (), ⟨by simp [h.isPublic], h.length_le⟩, kel, h.decoded, (),
      h.verified, (), h.named, (), fun hown => ⟨(), h.signed hown⟩, rfl⟩

lemma Carries.unique {kel kel' : Kel} (h : Carries o kel) (h' : Carries o kel') : kel = kel' :=
  Option.some.inj ((embedded_some.mpr h).symm.trans (embedded_some.mpr h'))

namespace KelCache

variable {cache : KelCache} {o : Object} {kel : Kel}

omit [KeyPrimitives] in
lemma welcomes_true : cache.welcomes kel = true ↔
      (cache.kels[kel.scid]? = none ∧ cache.len < maxCachedKels) ∨
        ∃ existing, cache.kels[kel.scid]? = some existing ∧ existing.events <+: kel.events := by
  rw [welcomes]
  split
  next hnone => simp [hnone]
  next existing hsome => simp [hsome]

omit [KeyPrimitives] in
lemma getElem?_insertVerified (cache : KelCache) (kel : Kel) (scid : String) :
    (cache.insertVerified kel).kels[scid]? =
      if kel.scid = scid then some kel else cache.kels[scid]? := by
  simp [insertVerified, Std.ExtTreeMap.getElem?_insert]

lemma proves_true :
    cache.proves o = true ↔ ∃ root device caps, cache.get o.authorHuman = some root ∧
      cache.get o.authorDevice = some device ∧ verifyProvenance o root device = .ok caps := by
  rw [proves]
  split
  next root device hroot hdevice => simp [hroot, hdevice, isOk_iff_exists]
  next hnone =>
    refine iff_of_false Bool.false_ne_true ?_
    rintro ⟨root, device, -, hroot, hdevice, -⟩
    exact hnone root device hroot hdevice

/-- What checking an object can come to. -/
inductive Checked (cache : KelCache) (o : Object) : IngestOutcome × KelCache → Prop
  | own {kel : Kel} (carries : Carries o kel) (welcome : cache.welcomes kel = true)
      (own : kel.did = o.authorDevice) :
      Checked cache o (.acceptedCarrier, cache.insertVerified kel)
  | root {kel : Kel} (carries : Carries o kel) (welcome : cache.welcomes kel = true)
      (foreign : kel.did ≠ o.authorDevice) (proven : (cache.insertVerified kel).proves o = true) :
      Checked cache o (.acceptedCarrier, cache.insertVerified kel)
  | kelOnly {kel : Kel} (carries : Carries o kel) (welcome : cache.welcomes kel = true)
      (foreign : kel.did ≠ o.authorDevice)
      (unproven : (cache.insertVerified kel).proves o = false) :
      Checked cache o (.acceptedKelOnly, cache.insertVerified kel)
  | refused (carrier : o.objectType = kelCarrierType)
      (refused : ∀ kel, Carries o kel → cache.welcomes kel = false) :
      Checked cache o (.invalid, cache)
  | accepted (content : o.objectType ≠ kelCarrierType) (proven : cache.proves o = true) :
      Checked cache o (.accepted, cache)
  | rejected {outcome : IngestOutcome} (content : o.objectType ≠ kelCarrierType)
      (unproven : cache.proves o = false)
      (outcome_eq : outcome = .unknownAuthor ∨ outcome = .invalid) :
      Checked cache o (outcome, cache)

lemma checked_of_carrier (h : o.objectType = kelCarrierType) :
    Checked cache o (Ingest.check cache o) := by
  rw [Ingest.check, if_pos h, absorbCarrier]
  cases hembedded : embedded o with
  | none =>
    refine .refused h fun kel hkel => ?_
    rw [embedded_some.mpr hkel] at hembedded
    cases hembedded
  | some kel =>
    have hcarries := embedded_some.mp hembedded
    simp only [Did.asStr_injective.eq_iff]
    cases hwelcome : cache.welcomes kel with
    | false =>
      refine .refused h fun kel' hkel' => ?_
      obtain rfl := hcarries.unique hkel'
      exact hwelcome
    | true =>
      by_cases hown : kel.did = o.authorDevice
      · simp only [if_true, if_pos hown]
        exact .own hcarries hwelcome hown
      · cases hproves : (cache.insertVerified kel).proves o with
        | true =>
          simp only [if_true, if_neg hown]
          exact .root hcarries hwelcome hown hproves
        | false =>
          simp only [if_true, if_neg hown]
          exact .kelOnly hcarries hwelcome hown hproves

lemma checked_of_content (h : o.objectType ≠ kelCarrierType) :
    Checked cache o (Ingest.check cache o) := by
  rw [Ingest.check, if_neg h]
  cases hroot : cache.get o.authorHuman with
  | none => exact .rejected h (by rw [proves, hroot]) (.inl rfl)
  | some root =>
    cases hdevice : cache.get o.authorDevice with
    | none => exact .rejected h (by rw [proves, hroot, hdevice]) (.inl rfl)
    | some device =>
      cases hok : (verifyProvenance o root device).isOk with
      | false =>
        simp only [hok]
        exact .rejected h (by rw [proves, hroot, hdevice]; exact hok) (.inr rfl)
      | true =>
        simp only [hok]
        exact .accepted h (by rw [proves, hroot, hdevice]; exact hok)

lemma checked (cache : KelCache) (o : Object) : Checked cache o (Ingest.check cache o) := by
  by_cases h : o.objectType = kelCarrierType
  · exact checked_of_carrier h
  · exact checked_of_content h

/-- What checking an object leaves in the cache. -/
lemma Checked.snd {out : IngestOutcome × KelCache} (h : Checked cache o out) :
    out.2 = cache ∨ ∃ kel, Carries o kel ∧
      cache.welcomes kel = true ∧ out.2 = cache.insertVerified kel := by
  cases h with
  | own carries welcome own
  | root carries welcome foreign proven
  | kelOnly carries welcome foreign unproven => exact .inr ⟨_, carries, welcome, rfl⟩
  | refused carrier refused | accepted content proven
  | rejected content unproven outcome_eq => exact .inl rfl

lemma check_snd (cache : KelCache) (o : Object) :
    (Ingest.check cache o).2 = cache ∨ ∃ kel, Carries o kel ∧ cache.welcomes kel = true ∧
      (Ingest.check cache o).2 = cache.insertVerified kel :=
  (checked cache o).snd

/-- A carrier's log is taken exactly when it is welcome. -/
lemma check_snd_of_carries (h : Carries o kel) : (Ingest.check cache o).2 =
      if cache.welcomes kel then cache.insertVerified kel else cache := by
  generalize Ingest.check cache o = out, checked cache o = hout
  cases hout with
  | own carries welcome own =>
    obtain rfl := h.unique carries
    rw [if_pos welcome]
  | root carries welcome foreign proven =>
    obtain rfl := h.unique carries
    rw [if_pos welcome]
  | kelOnly carries welcome foreign unproven =>
    obtain rfl := h.unique carries
    rw [if_pos welcome]
  | refused carrier refused => simp [refused kel h]
  | accepted content proven
  | rejected content unproven outcome_eq => exact absurd h.objectType content

end KelCache

end

/-! ### Sample carriers -/

/-- An identity of one key, and the same with an event more. -/
def sampleIdentity [KeyPrimitives] (i : ℕ) : Except Fault (Controller × Controller) := do
  let c ← Controller.incept [sampleKey i] 1 [sampleKey 0] 1
  let grown ← Controller.after (Controller.append (.interaction []) c.current) c
  return (c, grown)

/-- Two carriers in the name of one of two identities, each of a log and by a device that come from
them. -/
def sampleCarriers
    (shown : Controller → Controller → Controller → (Kel × Controller) × Kel × Controller) :
    Option (Controller × Controller × Controller × Object × Object) :=
  letI := KeyPrimitives.sums
  do
    let (c, grown) ← (sampleIdentity 1).toOption
    let (m, _) ← (sampleIdentity 2).toOption
    let ((kel, device), kel', device') := shown c grown m
    let old ← (kelCarrier kel c.did device).toOption
    let new ← (kelCarrier kel' c.did device').toOption
    return (c, grown, m, old, new)

/-- They can be signed, and pass the tests they pass when evaluated. -/
lemma exists_sample_carriers
    (shown : Controller → Controller → Controller → (Kel × Controller) × Kel × Controller)
    (test : Controller → Controller → Controller → Object → Object → Bool)
    (h : (sampleCarriers shown).any (fun (c, grown, m, old, new) => test c grown m old new)) :
    ∃ c grown m old new, test c grown m old new ∧
      @kelCarrier .sums (shown c grown m).1.1 c.did (shown c grown m).1.2 = .ok old ∧
      @kelCarrier .sums (shown c grown m).2.1 c.did (shown c grown m).2.2 = .ok new := by
  let := KeyPrimitives.sums
  obtain ⟨⟨c, grown, m, old, new⟩, hmade, htest⟩ := (Option.any_eq_true ..).mp h
  unfold sampleCarriers at hmade
  obtain ⟨⟨_, _⟩, -, hmade⟩ := Option.bind_eq_some_iff.mp hmade
  obtain ⟨⟨_, _⟩, -, hmade⟩ := Option.bind_eq_some_iff.mp hmade
  obtain ⟨_, hold, hmade⟩ := Option.bind_eq_some_iff.mp hmade
  obtain ⟨_, hnew, hmade⟩ := Option.bind_eq_some_iff.mp hmade
  cases hmade
  exact ⟨c, grown, m, old, new, htest, toOption_some.mp hold, toOption_some.mp hnew⟩

namespace KelCache

section

variable [KeyPrimitives]

/-! ### Runs -/

/-- The cache after some objects have been checked. -/
def after (cache : KelCache) (os : List Object) : KelCache :=
  os.foldl (fun cache o => (Ingest.check cache o).2) cache

variable {cache : KelCache} {kel : Kel} {e : Event}

lemma after_concat (cache : KelCache) (os : List Object) (o : Object) :
    cache.after (os ++ [o]) = (Ingest.check (cache.after os) o).2 := by
  simp [after]

/-- The logs in a cache verify, and are each under their identifier. -/
def Verified (cache : KelCache) : Prop :=
  ∀ (scid : String) (kel : Kel), cache.kels[scid]? = some kel →
    kel.scid = scid ∧ ∃ state, kel.verify = .ok state

/-- A log that was in the cache, or that an object carried. -/
def Shown (cache : KelCache) (os : List Object) (kel : Kel) : Prop :=
  cache.kels[kel.scid]? = some kel ∨ ∃ o ∈ os, Carries o kel

lemma Shown.mono {os os' : List Object} (h : cache.Shown os kel) (hsub : os ⊆ os') :
    cache.Shown os' kel := by
  rcases h with hcached | ⟨o, ho, hcarries⟩
  · exact .inl hcached
  · exact .inr ⟨o, hsub ho, hcarries⟩

/-- One object keeps the logs verified, and adds none that it does not carry. -/
lemma Verified.check (h : cache.Verified) (o : Object) {scid : String}
    (hkel : (Ingest.check cache o).2.kels[scid]? = some kel) :
    kel.scid = scid ∧ (∃ state, kel.verify = .ok state) ∧
      (cache.kels[scid]? = some kel ∨ Carries o kel) := by
  rcases check_snd cache o with hsame | ⟨kel', hcarries, -, hinserted⟩
  · rw [hsame] at hkel
    obtain ⟨hscid, hverified⟩ := h scid kel hkel
    exact ⟨hscid, hverified, .inl hkel⟩
  · rw [hinserted, getElem?_insertVerified] at hkel
    split_ifs at hkel with hscid
    · obtain rfl := Option.some.inj hkel
      exact ⟨hscid, hcarries.verified, .inr hcarries⟩
    · obtain ⟨hscid, hverified⟩ := h scid kel hkel
      exact ⟨hscid, hverified, .inl hkel⟩

/-- In every run the cache holds logs that verify, and that it was shown. -/
lemma Verified.after (h : cache.Verified) (os : List Object) : (cache.after os).Verified ∧
      ∀ (scid : String) (kel : Kel), (cache.after os).kels[scid]? = some kel →
        cache.Shown os kel := by
  induction os using List.reverseRecOn with
  | nil =>
    refine ⟨h, fun scid kel hkel => .inl ?_⟩
    rw [(h scid kel hkel).1]
    exact hkel
  | append_singleton os o ih =>
    obtain ⟨hverified, hshown⟩ := ih
    rw [after_concat]
    refine ⟨fun scid kel hkel => ?_, fun scid kel hkel => ?_⟩
    · obtain ⟨hscid, hstate, -⟩ := hverified.check o hkel
      exact ⟨hscid, hstate⟩
    · obtain ⟨-, -, hcached | hcarries⟩ := hverified.check o hkel
      · exact (hshown scid kel hcached).mono (subset_append_left _ _)
      · exact .inr ⟨o, by simp, hcarries⟩

/-! ### Later events -/

/-- No sequence of objects makes a cache outgrow its limit or roll a cached log back: whatever
arrives, a log is only ever replaced by a continuation of it. -/
theorem after_continues (cache : KelCache) (os : List Object) :
    (cache.after os).len ≤ max cache.len maxCachedKels ∧
      ∀ (scid : String) (kel : Kel), cache.kels[scid]? = some kel →
        ∃ later, (cache.after os).kels[scid]? = some later ∧ kel.events <+: later.events := by
  induction os using reverseRecOn with
  | nil => exact ⟨le_max_left _ _, fun scid kel hkel => ⟨kel, hkel, prefix_rfl⟩⟩
  | append_singleton os o ih =>
    obtain ⟨hlen, hlater⟩ := ih
    rw [after_concat]
    obtain heq | ⟨kel, -, hwelcome, heq⟩ := check_snd (cache.after os) o <;> rw [heq]
    · exact ⟨hlen, hlater⟩
    rw [welcomes_true] at hwelcome
    refine ⟨?_, fun scid old hold => ?_⟩
    · rw [len, insertVerified, Std.ExtTreeMap.size_insert]
      split
      · exact hlen
      next hnew =>
        obtain ⟨-, hroom⟩ | ⟨existing, hexisting, -⟩ := hwelcome
        · exact le_max_of_le_right hroom
        · exact absurd (Std.ExtTreeMap.mem_iff_isSome_getElem?.mpr (by simp [hexisting])) hnew
    · obtain ⟨later, hlater, hcontinues⟩ := hlater scid old hold
      rw [getElem?_insertVerified]
      split
      next hscid =>
        subst hscid
        rw [hlater] at hwelcome
        obtain ⟨⟨⟩, -⟩ | ⟨_, ⟨⟩, hprefix⟩ := hwelcome
        exact ⟨kel, rfl, hcontinues.trans hprefix⟩
      · exact ⟨later, hlater, hcontinues⟩

/-- The cached log of an identity goes as far as a log of it, and what is signed is the same so
far. -/
def Covers (cache : KelCache) (kel : Kel) : Prop :=
  ∃ cached, cache.get kel.did = some cached ∧
    kel.events.map Event.signingBytes <+: cached.events.map Event.signingBytes

section

omit [KeyPrimitives]

/-- A log that continues another one covers it. -/
lemma Covers.of_continued {cached : Kel} (hcached : cache.get kel.did = some cached)
    (h : kel.events <+: cached.events) : cache.Covers kel :=
  ⟨cached, hcached, h.map _⟩

/-- An event without its signatures. -/
def unsigned (e : Event) : Event := { e with signatures := [] }

lemma signingBytes_eq_of_unsigned {e' : Event} (h : unsigned e = unsigned e') :
    e.signingBytes = e'.signingBytes := by
  have hbytes : ∀ e : Event, (unsigned e).signingBytes = e.signingBytes := by
    intro e
    simp [unsigned, Event.signingBytes, Event.encode]
  rw [← hbytes e, h, hbytes]

lemma eq_of_unsigned {e' : Event} (h : unsigned e = unsigned e')
    (hsignatures : e.signatures = e'.signatures) : e = e' := by
  cases e
  cases e'
  simp only [unsigned, Event.mk.injEq, and_true] at h
  simp_all

end

/-- The events of a log that verifies are numbered by their places. -/
lemma sn_of_verify {state : KeyState} (h : kel.verify = .ok state) {i : ℕ}
    (he : kel.events[i]? = some e) : e.sn = UInt64.ofNat i := by
  obtain ⟨r, hr, -⟩ := Kel.verify_ok.mp h
  exact (Kel.place_of_replay hr i e he).2

omit [KeyPrimitives] in
/-- Lists that agree where both have something begin alike. -/
private lemma prefix_of_agree {α : Type} {xs ys : List α} (hlength : xs.length ≤ ys.length)
    (h : ∀ (i : ℕ) (x y : α), xs[i]? = some x → ys[i]? = some y → x = y) : xs <+: ys := by
  refine prefix_iff_getElem.mpr ⟨hlength, fun i hi => ?_⟩
  exact h i _ _ (List.getElem?_eq_getElem hi) (List.getElem?_eq_getElem (hi.trans_le hlength))

/-- The log of a carrier is covered after it was checked exactly when the cached log, if it is
shorter, has the signatures of the carrier's log on the events they share. -/
lemma covers_check_iff (hverified : cache.Verified) {o : Object} (hcarries : Carries o kel)
    (hroom : cache.len < maxCachedKels)
    (honce : ∀ cached, cache.get kel.did = some cached → ∀ e ∈ cached.events, ∀ e' ∈ kel.events,
      e.sn = e'.sn → unsigned e = unsigned e') :
    (Ingest.check cache o).2.Covers kel ↔ ∀ cached, cache.get kel.did = some cached →
      cached.events.length < kel.events.length → ∀ e ∈ cached.events, ∀ e' ∈ kel.events,
        e.sn = e'.sn → e.signatures = e'.signatures := by
  have hself : (cache.insertVerified kel).Covers kel := by
    have hget : (cache.insertVerified kel).get kel.did = some kel :=
      (getElem?_insertVerified cache kel kel.scid).trans (if_pos rfl)
    exact .of_continued hget (prefix_refl _)
  obtain ⟨state, hstate⟩ := hcarries.verified
  rw [check_snd_of_carries hcarries]
  cases hget : cache.get kel.did with
  | none =>
    rw [if_pos (welcomes_true.mpr (.inl ⟨hget, hroom⟩))]
    exact iff_of_true hself fun cached hcached => nomatch hcached
  | some cached =>
    obtain ⟨-, state', hstate'⟩ := hverified kel.scid cached hget
    have hplace : ∀ (i : ℕ) (e e' : Event), cached.events[i]? = some e →
        kel.events[i]? = some e' → unsigned e = unsigned e' := by
      intro i e e' he he'
      refine honce cached hget e (mem_of_getElem? he) e' (mem_of_getElem? he') ?_
      rw [sn_of_verify hstate' he, sn_of_verify hstate he']
    by_cases hwelcome : cache.welcomes kel = true
    · rw [if_pos hwelcome]
      refine iff_of_true hself fun cached' hcached' hshorter e he e' he' hsn => ?_
      obtain rfl := Option.some.inj hcached'
      rcases welcomes_true.mp hwelcome with ⟨hnone, -⟩ | ⟨existing, hexisting, hcontinued⟩
      · rw [show cache.get kel.did = none from hnone] at hget
        cases hget
      · obtain rfl := Option.some.inj (hget.symm.trans hexisting)
        have hlength := (Kel.fromBytes_ok.mp hcarries.decoded).2.length_le
        rw [Kel.eq_of_sn hstate (hlength.trans (by decide)) (hcontinued.subset he) he' hsn]
    · rw [if_neg hwelcome]
      constructor
      · rintro ⟨cached', hcached', hcontinued⟩ cached'' hcached'' hshorter
        obtain rfl := Option.some.inj hcached''
        obtain rfl := Option.some.inj (hget.symm.trans hcached')
        have hle := hcontinued.length_le
        simp only [length_map] at hle
        exact absurd hshorter hle.not_gt
      · intro hsame
        -- a shorter log with the same signatures would have been continued
        have hle : kel.events.length ≤ cached.events.length := by
          by_contra hshorter
          rw [not_le] at hshorter
          refine hwelcome (welcomes_true.mpr (.inr ⟨cached, hget,
            prefix_of_agree hshorter.le fun i e e' he he' => ?_⟩))
          refine eq_of_unsigned (hplace i e e' he he') ?_
          exact hsame cached rfl hshorter e (mem_of_getElem? he) e' (mem_of_getElem? he')
            (by rw [sn_of_verify hstate' he, sn_of_verify hstate he'])
        refine ⟨cached, hget, prefix_of_agree (by simpa using hle) fun i x y hx hy => ?_⟩
        rw [List.getElem?_map, Option.map_eq_some_iff] at hx hy
        obtain ⟨e', he', rfl⟩ := hx
        obtain ⟨e, he, rfl⟩ := hy
        exact (signingBytes_eq_of_unsigned (hplace i e e' he he')).symm

/-- Where a controller signs each event once, its log gets through exactly when the log that is
cached for it, if it is shorter, has the same signatures on the events they share. -/
theorem covers_after_iff {cache : KelCache} (hverified : cache.Verified) (os : List Object)
    {o : Object} {kel : Kel} (hcarries : Carries o kel)
    (hroom : (cache.after os).len < maxCachedKels)
    (honce : ∀ a b, cache.Shown (os ++ [o]) a → cache.Shown (os ++ [o]) b → a.did = kel.did →
      b.did = kel.did → ∀ e ∈ a.events, ∀ e' ∈ b.events, e.sn = e'.sn → unsigned e = unsigned e') :
    (cache.after (os ++ [o])).Covers kel ↔
      ∀ cached, (cache.after os).get kel.did = some cached →
        cached.events.length < kel.events.length → ∀ e ∈ cached.events, ∀ e' ∈ kel.events,
          e.sn = e'.sn → e.signatures = e'.signatures := by
  obtain ⟨hlogs, hshown⟩ := hverified.after os
  rw [after_concat]
  refine covers_check_iff hlogs hcarries hroom fun cached hcached => ?_
  refine honce cached kel ((hshown _ _ hcached).mono (subset_append_left _ _))
    (.inr ⟨o, by simp, hcarries⟩) ?_ rfl
  exact congrArg Did.mk (hlogs _ _ hcached).1

end

lemma verified_new [KeyPrimitives] : KelCache.new.Verified := by
  intro scid kel h
  simp [KelCache.new] at h

/-- Two logs of an identity, of which the shorter one is shown first, perhaps packaged in another
way. -/
def ShownTwice [KeyPrimitives] (old new : Object) (short long : Kel) : Prop :=
  embedded old = some short ∧ embedded new = some long ∧
    (KelCache.new.after [old]).get long.did = some short ∧
    (KelCache.new.after [old]).len < maxCachedKels ∧
    short.events.length < long.events.length ∧
    ∀ e ∈ short.events ++ long.events, ∀ e' ∈ short.events ++ long.events,
      e.sn = e'.sn → unsigned e = unsigned e'

instance [KeyPrimitives] (old new : Object) (short long : Kel) :
    Decidable (ShownTwice old new short long) := inferInstanceAs (Decidable (_ ∧ _))

lemma ShownTwice.once [KeyPrimitives] {old new : Object} {short long : Kel}
    (h : ShownTwice old new short long) {a b : Kel}
    (ha : KelCache.new.Shown ([old] ++ [new]) a) (hb : KelCache.new.Shown ([old] ++ [new]) b) :
    ∀ e ∈ a.events, ∀ e' ∈ b.events, e.sn = e'.sn → unsigned e = unsigned e' := by
  obtain ⟨hold, hnew, -, -, -, halike⟩ := h
  have hmem : ∀ {k : Kel}, KelCache.new.Shown ([old] ++ [new]) k →
      ∀ e ∈ k.events, e ∈ short.events ++ long.events := by
    rintro k (hcached | ⟨o, ho, hcarries⟩) e he
    · simp [KelCache.new] at hcached
    · rcases mem_cons.mp ho with rfl | ho
      · rw [hcarries.unique (embedded_some.mp hold)] at he
        exact mem_append_left _ he
      · obtain rfl := mem_singleton.mp ho
        rw [hcarries.unique (embedded_some.mp hnew)] at he
        exact mem_append_right _ he
  exact fun e he e' he' => halike e (hmem ha e he) e' (hmem hb e' he')

/-- A log with an event more takes the place of the one that was cached. -/
theorem sample_covers_after :
    ∃ (short long : Kel) (old new : Object), @Carries .sums old short ∧ @Carries .sums new long ∧
      (@after .sums .new [old]).get long.did = some short ∧
      short.events.length < long.events.length ∧
      (@after .sums .new ([old] ++ [new])).Covers long := by
  let := KeyPrimitives.sums
  obtain ⟨c, grown, -, old, new, htest, -⟩ := exists_sample_carriers
    (fun c grown _ => ((c.kel, c), grown.kel, grown)) (fun c grown _ old new => decide
      (ShownTwice old new c.kel grown.kel ∧ ∀ e ∈ c.kel.events, ∀ e' ∈ grown.kel.events,
        e.sn = e'.sn → e.signatures = e'.signatures)) (by decide +kernel)
  obtain ⟨h, hsignatures⟩ := of_decide_eq_true htest
  obtain ⟨hold, hnew, hcached, hroom, hshorter, -⟩ := id h
  refine ⟨_, _, old, new, embedded_some.mp hold, embedded_some.mp hnew, hcached, hshorter, ?_⟩
  refine (covers_after_iff verified_new [old] (embedded_some.mp hnew) hroom
    fun a b ha hb _ _ => h.once ha hb).mpr fun cached hget _ => ?_
  obtain rfl := Option.some.inj (hcached.symm.trans hget)
  exact hsignatures

/-- A stranger wraps the inception of an identity with one more signature. The log that the
controller publishes next is refused. -/
theorem sample_not_covered :
    ∃ (victim stranger : Controller) (short long : Kel) (attack carrier : Object),
      @kelCarrier .sums short victim.did stranger = .ok attack ∧ stranger.did ≠ victim.did ∧
      @kelCarrier .sums long victim.did victim = .ok carrier ∧ victim.kel = long ∧
      @Carries .sums attack short ∧ @Carries .sums carrier long ∧
      (@after .sums .new [attack]).len < maxCachedKels ∧
      (∀ a b, @Shown .sums .new ([attack] ++ [carrier]) a →
        @Shown .sums .new ([attack] ++ [carrier]) b →
        ∀ e ∈ a.events, ∀ e' ∈ b.events, e.sn = e'.sn → unsigned e = unsigned e') ∧
      ¬ (@after .sums .new ([attack] ++ [carrier])).Covers long := by
  let := KeyPrimitives.sums
  let packaged (c : Controller) : Kel :=
    ⟨c.scid, c.events.map (·.repackaged (WitnessJournal.sampleSurplus 0))⟩
  obtain ⟨c, grown, m, attack, carrier, htest, hattack, hcarrier⟩ := exists_sample_carriers
    (fun c grown m => ((packaged c, m), grown.kel, grown))
    (fun c grown m attack carrier => decide (c.did = grown.did ∧ m.did ≠ grown.did ∧
      ShownTwice attack carrier (packaged c) grown.kel ∧ ∃ e ∈ (packaged c).events,
        ∃ e' ∈ grown.kel.events, e.sn = e'.sn ∧ e.signatures ≠ e'.signatures)) (by decide +kernel)
  obtain ⟨hdid, hother, h, e, he, e', he', hsn, hsignatures⟩ := of_decide_eq_true htest
  obtain ⟨hold, hnew, hcached, hroom, hshorter, -⟩ := id h
  rw [hdid] at hattack hcarrier
  refine ⟨grown, m, _, _, attack, carrier, hattack, hother, hcarrier, rfl, embedded_some.mp hold,
    embedded_some.mp hnew, hroom, fun a b ha hb => h.once ha hb, fun hcovers => ?_⟩
  rw [after_concat, covers_check_iff (verified_new.after [attack]).1 (embedded_some.mp hnew)
    hroom] at hcovers
  · exact hsignatures (hcovers _ hcached hshorter e he e' he' hsn)
  · intro cached hget
    obtain rfl := Option.some.inj (hcached.symm.trans hget)
    exact h.once (.inr ⟨attack, by simp, embedded_some.mp hold⟩)
      (.inr ⟨carrier, by simp, embedded_some.mp hnew⟩)

end KelCache

end Mininet.Sync

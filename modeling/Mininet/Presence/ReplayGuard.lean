import Mininet.Durable
import Mininet.Identity

/-!
# Presence attestations are accepted once

An attestation is judged fresh by its own finish time, which may lie ahead of the verifier's clock by
the tolerated skew; the nonces it spends are kept in a file from the time of recording on, for the
retention the file is opened with. A pruning first commits its clock reading, and no reading behind
the committed one is accepted again, so that a forgotten nonce stays useless as long as the
retention exceeds the maximal age and the skew together. The documented window, the maximal age
alone, is too short.
-/

namespace Mininet.Presence

open Codec Fallible List

/-! ### The guard's files -/

/-- A device and a nonce it used. -/
abbrev Key := Did × Hash

/-- The file of a guard, as the records of its complete lines and whether an unterminated line
follows, and the clock file beside it, with 0 for a missing one. -/
structure GuardFile where
  records : List (Key × ℕ)
  torn : Bool
  clock : ℕ

namespace GuardFile

/-- A line of the file is for this key. -/
def Seen (f : GuardFile) (key : Key) : Prop := key ∈ f.records.map (·.1)

instance (f : GuardFile) (key : Key) : Decidable (f.Seen key) := List.instDecidableMemOfLawfulBEq _ _

/-- The latest epoch recorded for a key. -/
def latest (f : GuardFile) (key : Key) : ℕ :=
  ((f.records.filter (·.1 = key)).map (·.2)).foldr max 0

/-- No reading of the clock below this one is accepted. -/
def floor (f : GuardFile) : ℕ := max f.clock ((f.records.map (·.2)).foldr max 0)

end GuardFile

/-- What appending a line ends in: the line and its flush succeed, or the call fails with nothing,
part of the line, or the whole of it in the file. -/
inductive Append where
  | flushed
  | failed (written : Option Bool)

/-- What the disk does during one locked transaction. A crash inside it is a step that fails. -/
structure Disk where
  reload : Bool
  truncated : Bool
  clock : Replacement
  append : Append
  replace : Replacement

/-- Read the file under the lock, cutting an unterminated line off. -/
def reload (disk : Disk) (f : GuardFile) : Bool × GuardFile :=
  (disk.reload, { f with torn := f.torn && !(disk.reload || disk.truncated) })

/-- Commit the clock reading, unless it is behind the floor. -/
def commitClock (disk : Disk) (f : GuardFile) (nowMs : ℕ) : Bool × GuardFile :=
  if nowMs < f.floor then (false, f)
  else match disk.clock with
    | .replaced       => (true, { f with clock := nowMs })
    | .failed written => (false, { f with clock := if written then nowMs else f.clock })

/-- Record a key that was not seen: `some false` if it was, `none` if the disk failed. -/
def tryCheckAndRecord (disk : Disk) (f : GuardFile) (key : Key) (nowMs : ℕ) :
    Option Bool × GuardFile :=
  let (loaded, f) := reload disk f
  if !loaded then (none, f)
  else if f.Seen key then (some false, f)
  else
    let (committed, f) := commitClock disk f nowMs
    if !committed then (none, f)
    else match disk.append with
      | .flushed             => (some true, { f with records := f.records ++ [(key, nowMs)] })
      | .failed none         => (none, f)
      | .failed (some false) => (none, { f with torn := true })
      | .failed (some true)  => (none, { f with records := f.records ++ [(key, nowMs)] })

/-- The records that outlive a pruning, one for each key. -/
def staged (f : GuardFile) (retentionMs nowMs : ℕ) : List (Key × ℕ) :=
  ((f.records.filter fun r => nowMs < min (f.latest r.1 + retentionMs) (2 ^ 64 - 1)).map
    fun r => (r.1, f.latest r.1)).dedup

/-- Drop what is older than the retention, after committing the clock, if anything is; the same
transaction ends opening a file. -/
def prune (disk : Disk) (f : GuardFile) (retentionMs nowMs : ℕ) : GuardFile :=
  let (loaded, f) := reload disk f
  if !loaded then f
  else
    let (committed, f) := commitClock disk f nowMs
    if !committed ∨ ∀ r ∈ f.records, nowMs < min (f.latest r.1 + retentionMs) (2 ^ 64 - 1) then f
    else match disk.replace with
      | .failed false => f
      | _             => { f with records := staged f retentionMs nowMs }

/-! ### Verification -/

inductive PresenceError where
  | unsupportedVersion (version : UInt8)
  | notProximityTransport
  | bindingMismatch
  | badTimeWindow
  | notEnoughRangeSamples
  | rangeExceeded
  | uwbRangeExceeded
  | replay
  | deviceMismatch
  | kelDigestMismatch
  | missingAttestCapability
  | selfPresence
  | replayGuardWriteFailed
  | identity (e : IdentityError)

structure RangePolicy where
  maxRttMs : ℕ
  minRttSamples : ℕ
  maxSessionMs : ℕ
  maxClockSkewMs : ℕ
  maxAgeMs : ℕ
  maxUwbDistanceCm : Option ℕ

inductive TransportKind where
  | ble | localWifi | inProcess | relay
  deriving DecidableEq

namespace TransportKind

def tag : TransportKind → UInt8
  | ble => 1
  | localWifi => 2
  | inProcess => 3
  | relay => 4

def isProximity (t : TransportKind) : Bool := t ≠ relay

end TransportKind

structure UwbRanging where
  distanceCm : ℕ
  sampleCount : ℕ
  deriving DecidableEq

structure Party where
  device : Did
  kelDigest : Hash
  nonce : Hash
  deriving DecidableEq

def Party.bytes (p : Party) : Bytes := p.device.wireBytes ++ p.kelDigest.bytes ++ p.nonce.bytes

structure AttestationFields where
  version : UInt8
  channelBinding : Hash
  initiator : Party
  responder : Party
  startedAtMs : ℕ
  finishedAtMs : ℕ
  rttSamplesMs : List ℕ
  transport : TransportKind
  locationCommitment : Option Hash
  uwb : Option UwbRanging
  deriving DecidableEq

/-- What both devices sign. -/
def AttestationFields.transcript (f : AttestationFields) : Bytes :=
  f.version :: (f.channelBinding.bytes ++ f.initiator.bytes ++ f.responder.bytes ++
    beBytes 8 f.startedAtMs ++ beBytes 8 f.finishedAtMs ++ beBytes 4 f.rttSamplesMs.length ++
    f.rttSamplesMs.flatMap (beBytes 4) ++ [f.transport.tag] ++
    f.locationCommitment.elim [0] (1 :: ·.bytes) ++
    f.uwb.elim [0] fun u => 1 :: (beBytes 4 u.distanceCm ++ beBytes 4 u.sampleCount))

structure PresenceAttestation where
  fields : AttestationFields
  initiatorSig : List IndexedSig
  responderSig : List IndexedSig
  deriving DecidableEq

/-- The device to run a check with, at the state of its log the attestation is pinned to. -/
structure VerifyContext (Kel : Type) where
  initiatorRoot : Kel
  responderRoot : Kel
  initiatorDevice : Kel
  responderDevice : Kel
  policy : RangePolicy
  nowMs : ℕ
  expectedBinding : Option Hash

/-- The version of the protocol that is spoken. -/
def presenceVersion : UInt8 := 1

/-- The capability to attest presence. -/
def attest : Capabilities := ⟨(1 : UInt32) <<< 3⟩

section Verify

variable {Kel : Type} [KelOps Kel] (kelDigest : Kel → Hash)

def checkParty (party : Party) (root device : Kel) (sig : List IndexedSig) (transcript : Bytes) :
    Except PresenceError Unit := do
  failIf ((KelOps.did device).asStr ≠ party.device.asStr) .deviceMismatch
  failIf (kelDigest device ≠ party.kelDigest) .kelDigestMismatch
  let caps ← (KelOps.verifyDelegation root device).mapError .identity
  failIf (!caps.contains attest) .missingAttestCapability
  (KelOps.verifyMessage device transcript sig).mapError .identity

/-- Whether the finish time is neither ahead of the clock nor too old. -/
def timely (policy : RangePolicy) (finishedAtMs nowMs : ℕ) : Bool :=
  finishedAtMs ≤ min (nowMs + policy.maxClockSkewMs) (2 ^ 64 - 1) ∧
    ¬ (0 < policy.maxAgeMs ∧ finishedAtMs < nowMs - policy.maxAgeMs)

/-- Everything that is checked before the guard is asked. -/
def checks (att : PresenceAttestation) (ctx : VerifyContext Kel) : Except PresenceError Unit := do
  let f := att.fields
  failIf (f.version ≠ presenceVersion) (.unsupportedVersion f.version)
  failIf (!f.transport.isProximity) .notProximityTransport
  failIf (ctx.expectedBinding.any (· ≠ f.channelBinding)) .bindingMismatch
  failIf (f.finishedAtMs < f.startedAtMs ∨ ctx.policy.maxSessionMs < f.finishedAtMs - f.startedAtMs)
    .badTimeWindow
  failIf (!timely ctx.policy f.finishedAtMs ctx.nowMs) .badTimeWindow
  failIf (f.rttSamplesMs.length < ctx.policy.minRttSamples) .notEnoughRangeSamples
  failIf (ctx.policy.maxRttMs < f.rttSamplesMs.min?.getD (2 ^ 32 - 1)) .rangeExceeded
  failIf (ctx.policy.maxUwbDistanceCm.any fun cm => f.uwb.any fun u => cm < u.distanceCm)
    .uwbRangeExceeded
  failIf (f.initiator.nonce = f.responder.nonce) .replay
  checkParty kelDigest f.initiator ctx.initiatorRoot ctx.initiatorDevice att.initiatorSig f.transcript
  checkParty kelDigest f.responder ctx.responderRoot ctx.responderDevice att.responderSig f.transcript
  failIf ((KelOps.did ctx.initiatorRoot).scid = (KelOps.did ctx.responderRoot).scid) .selfPresence

/-- The two co-present roots, and when. -/
structure PresenceVerdict where
  initiatorRoot : Did
  responderRoot : Did
  atMs : ℕ
  hardwareRanged : Bool

def PresenceAttestation.initiatorKey (att : PresenceAttestation) : Key :=
  (att.fields.initiator.device, att.fields.initiator.nonce)

def PresenceAttestation.responderKey (att : PresenceAttestation) : Key :=
  (att.fields.responder.device, att.fields.responder.nonce)

/-- Verify an attestation with a handle that remembers the keys `isSeen`; the guard's clock shows the
context's time. -/
def verifyPresence (att : PresenceAttestation) (ctx : VerifyContext Kel) (isSeen : Key → Bool)
    (disk disk' : Disk) (f : GuardFile) : Except PresenceError PresenceVerdict × GuardFile :=
  match checks kelDigest att ctx with
  | .error e => (.error e, f)
  | .ok () =>
    if isSeen att.initiatorKey || isSeen att.responderKey then (.error .replay, f)
    else
      let (initiator, f) := tryCheckAndRecord disk f att.initiatorKey ctx.nowMs
      let (responder, f) := tryCheckAndRecord disk' f att.responderKey ctx.nowMs
      if initiator ≠ some true ∨ responder ≠ some true then (.error .replayGuardWriteFailed, f)
      else (.ok ⟨KelOps.did ctx.initiatorRoot, KelOps.did ctx.responderRoot,
        att.fields.finishedAtMs, att.fields.uwb.isSome⟩, f)

/-! ### Runs -/

/-- A guard's files, the calls that have recorded their first nonce with what came of it, and the
attestations accepted so far. -/
structure World where
  file : GuardFile
  pending : List (PresenceAttestation × ℕ × Bool)
  accepted : List PresenceAttestation

/-- One locked transaction of some handle, or the end of some calls. A call that fails before its
first transaction changes nothing. The retentions and clock readings of prunings satisfy `ok`. -/
inductive Step (policy : RangePolicy) (ok : ℕ → ℕ → Prop) : World → World → Prop
  | begin {w : World} (att : PresenceAttestation) (ctx : VerifyContext Kel) (disk : Disk) :
      ctx.policy = policy → checks kelDigest att ctx = .ok () →
      Step policy ok w
        { w with
          file := (tryCheckAndRecord disk w.file att.initiatorKey ctx.nowMs).2
          pending := (att, ctx.nowMs, decide ((tryCheckAndRecord disk w.file att.initiatorKey
            ctx.nowMs).1 = some true)) :: w.pending }
  | finish {w : World} {att : PresenceAttestation} {nowMs : ℕ} {recorded : Bool} (disk : Disk)
      (h : (att, nowMs, recorded) ∈ w.pending) :
      Step policy ok w
        { file := (tryCheckAndRecord disk w.file att.responderKey nowMs).2
          pending := w.pending.erase (att, nowMs, recorded)
          accepted :=
            if recorded ∧ (tryCheckAndRecord disk w.file att.responderKey nowMs).1 = some true
            then att :: w.accepted else w.accepted }
  | prune {w : World} (disk : Disk) {retentionMs nowMs : ℕ} : ok retentionMs nowMs →
      Step policy ok w { w with file := prune disk w.file retentionMs nowMs }
  | crash {w : World} {pending : List (PresenceAttestation × ℕ × Bool)} :
      pending.Sublist w.pending → Step policy ok w { w with pending }

/-- The worlds that any number of processes lead to from a file. -/
inductive Reaches (policy : RangePolicy) (ok : ℕ → ℕ → Prop) (file : GuardFile) : World → Prop
  | start : Reaches policy ok file ⟨file, [], []⟩
  | step {w w' : World} : Reaches policy ok file w → Step kelDigest policy ok w w' →
      Reaches policy ok file w'

/-- An uninterrupted call takes the two steps of a call. -/
lemma Reaches.verifyPresence {policy : RangePolicy} {ok : ℕ → ℕ → Prop} {file f' : GuardFile}
    {w : World} (h : Reaches kelDigest policy ok file w) {att : PresenceAttestation}
    {ctx : VerifyContext Kel} {isSeen : Key → Bool} {disk disk' : Disk} {v : PresenceVerdict}
    (hpolicy : ctx.policy = policy)
    (hcall : verifyPresence kelDigest att ctx isSeen disk disk' w.file = (.ok v, f')) :
    Reaches kelDigest policy ok file ⟨f', w.pending, att :: w.accepted⟩ := by
  unfold Presence.verifyPresence at hcall
  split at hcall
  · cases hcall
  next hchecks =>
    split at hcall
    · cases hcall
    dsimp only at hcall
    split at hcall
    · cases hcall
    next hok =>
      rw [not_or, not_not, not_not] at hok
      cases hcall
      have hfirst := h.step (.begin att ctx disk hpolicy hchecks)
      simpa [hok.1, hok.2] using hfirst.step (.finish disk' mem_cons_self)

end Verify

/-- A file that remembers at least what another does. -/
structure Grows (f f' : GuardFile) : Prop where
  clock : f.clock ≤ f'.clock
  seen : ∀ key, f.Seen key → f'.Seen key ∧ f.latest key ≤ f'.latest key

namespace Grows

lemma refl (f : GuardFile) : Grows f f := ⟨le_rfl, fun _ h => ⟨h, le_rfl⟩⟩

lemma trans {f g h : GuardFile} (hfg : Grows f g) (hgh : Grows g h) : Grows f h :=
  ⟨hfg.clock.trans hgh.clock, fun key hkey =>
    ⟨(hgh.seen key (hfg.seen key hkey).1).1,
      (hfg.seen key hkey).2.trans (hgh.seen key (hfg.seen key hkey).1).2⟩⟩

end Grows

variable {disk : Disk} {f : GuardFile} {key : Key} {nowMs retentionMs : ℕ}

lemma latest_append_self (f : GuardFile) (key : Key) (nowMs : ℕ) :
    nowMs ≤ { f with records := f.records ++ [(key, nowMs)] : GuardFile }.latest key ∧
    Grows f { f with records := f.records ++ [(key, nowMs)] } := by
  have hmono : ∀ xs : List ℕ, xs.foldr max 0 ≤ (xs ++ [nowMs]).foldr max 0 := by
    intro xs
    induction xs with
    | nil => simp
    | cons x xs ih => exact max_le_max le_rfl ih
  refine ⟨le_max_of_le' 0 (by simp) le_rfl, le_rfl, fun k hk => ⟨?_, ?_⟩⟩
  · simpa [GuardFile.Seen] using Or.inl (by simpa [GuardFile.Seen] using hk)
  · by_cases hkey : key = k
    · simpa [GuardFile.latest, hkey] using hmono ((f.records.filter (·.1 = k)).map (·.2))
    · simp [GuardFile.latest, hkey]

lemma commitClock_spec (disk : Disk) (f : GuardFile) (nowMs : ℕ) :
    (commitClock disk f nowMs).2.records = f.records ∧ Grows f (commitClock disk f nowMs).2 ∧
    ((commitClock disk f nowMs).1 = true →
      f.clock ≤ nowMs ∧ (commitClock disk f nowMs).2.clock = nowMs) := by
  unfold commitClock
  split
  · exact ⟨rfl, .refl f, by simp⟩
  next hfloor =>
    have hle : f.clock ≤ nowMs := (le_max_left _ _).trans (not_lt.mp hfloor)
    split
    · exact ⟨rfl, ⟨hle, fun _ h => ⟨h, le_rfl⟩⟩, fun _ => ⟨hle, rfl⟩⟩
    · refine ⟨rfl, ⟨?_, fun _ h => ⟨h, le_rfl⟩⟩, by simp⟩
      dsimp only
      split
      · exact hle
      · exact le_rfl

/-- Recording forgets nothing, and a key it records was not in the file and now is. -/
lemma tryCheckAndRecord_spec (disk : Disk) (f : GuardFile) (key : Key) (nowMs : ℕ) :
    Grows f (tryCheckAndRecord disk f key nowMs).2 ∧
    ((tryCheckAndRecord disk f key nowMs).1 = some true → ¬ f.Seen key ∧ f.clock ≤ nowMs ∧
      (tryCheckAndRecord disk f key nowMs).2.Seen key ∧
      nowMs ≤ (tryCheckAndRecord disk f key nowMs).2.latest key) := by
  obtain ⟨-, hgrows, hcommit⟩ := commitClock_spec disk (reload disk f).2 nowMs
  have hreload : Grows f (reload disk f).2 := ⟨le_rfl, fun _ h => ⟨h, le_rfl⟩⟩
  have happend := latest_append_self (commitClock disk (reload disk f).2 nowMs).2 key nowMs
  unfold tryCheckAndRecord
  dsimp only
  split
  · exact ⟨hreload, by simp⟩
  split
  · exact ⟨hreload, by simp⟩
  next hseen =>
    split
    · exact ⟨hreload.trans hgrows, by simp⟩
    next hcommitted =>
      have hclock := (hcommit (by simpa using hcommitted)).1
      split
      · exact ⟨(hreload.trans hgrows).trans happend.2, fun _ =>
          ⟨hseen, hclock, by simp [GuardFile.Seen], happend.1⟩⟩
      · exact ⟨hreload.trans hgrows, by simp⟩
      · exact ⟨hreload.trans (hgrows.trans ⟨le_rfl, fun _ h => ⟨h, le_rfl⟩⟩), by simp⟩
      · exact ⟨(hreload.trans hgrows).trans happend.2, by simp⟩

/-! ### Once -/

/-- The initiator's nonce is in the file, recorded no earlier than the skew allows, or the committed
clock is past the attestation's age. -/
def Spent (policy : RangePolicy) (f : GuardFile) (att : PresenceAttestation) : Prop :=
  f.Seen att.initiatorKey ∧
    att.fields.finishedAtMs ≤ f.latest att.initiatorKey + policy.maxClockSkewMs ∨
  att.fields.finishedAtMs + policy.maxAgeMs < f.clock

variable {policy : RangePolicy} {att : PresenceAttestation}

lemma Spent.grows {f' : GuardFile} (h : Spent policy f att) (hgrows : Grows f f') :
    Spent policy f' att := by
  rcases h with ⟨hseen, hle⟩ | hold
  · obtain ⟨hseen', hlatest⟩ := hgrows.seen _ hseen
    exact .inl ⟨hseen', by omega⟩
  · exact .inr (hold.trans_le hgrows.clock)

/-- A pruning whose retention covers age and skew forgets a nonce only once it is useless. -/
lemma Spent.prune (h : Spent policy f att)
    (hretention : policy.maxAgeMs + policy.maxClockSkewMs < retentionMs)
    (hnow : nowMs < 2 ^ 64 - 1) : Spent policy (prune disk f retentionMs nowMs) att := by
  obtain ⟨hrecords, hgrows, hcommit⟩ := commitClock_spec disk (reload disk f).2 nowMs
  have hreload : Grows f (reload disk f).2 := ⟨le_rfl, fun _ h => ⟨h, le_rfl⟩⟩
  have hspent := (h.grows hreload).grows hgrows
  unfold Presence.prune
  dsimp only
  split
  · exact h.grows hreload
  split
  · exact hspent
  next hcommitted =>
    rw [not_or] at hcommitted
    have hclock := (hcommit (by simpa using hcommitted.1)).2
    split
    · exact hspent
    · generalize (commitClock disk (reload disk f).2 nowMs).2 = g at hspent hclock ⊢
      rcases hspent with ⟨hseen, hle⟩ | hold
      · by_cases hkept : nowMs < min (g.latest att.initiatorKey + retentionMs) (2 ^ 64 - 1)
        · have hmem : (att.initiatorKey, g.latest att.initiatorKey) ∈ staged g retentionMs nowMs := by
            obtain ⟨r, hr, hkey⟩ := mem_map.mp hseen
            refine mem_dedup.mpr (mem_map.mpr ⟨r, mem_filter.mpr ⟨hr, ?_⟩, ?_⟩)
            · simpa [hkey] using hkept
            · rw [hkey]
          refine .inl ⟨mem_map_of_mem hmem, hle.trans (Nat.add_le_add_right ?_ _)⟩
          have hin : g.latest att.initiatorKey ∈
              ((staged g retentionMs nowMs).filter (·.1 = att.initiatorKey)).map (·.2) :=
            mem_map.mpr ⟨_, mem_filter.mpr ⟨hmem, by simp⟩, rfl⟩
          exact le_max_of_le' 0 hin le_rfl
        · refine .inr ?_
          change _ < g.clock
          omega
      · exact .inr hold

variable {Kel : Type} [KelOps Kel] {kelDigest : Kel → Hash} {ok : ℕ → ℕ → Prop}

/-- An attestation that passes the checks is within its age and the skew. -/
lemma timely_of_checks {ctx : VerifyContext Kel} (h : checks kelDigest att ctx = .ok ()) :
    timely ctx.policy att.fields.finishedAtMs ctx.nowMs = true := by
  simp only [checks, ↓failIf_bind_ok] at h
  obtain ⟨-, -, -, -, htime, -⟩ := h
  simpa using htime

/-- The attestations whose first nonce was recorded. -/
def World.begun (w : World) : List PresenceAttestation :=
  (w.pending.filter (·.2.2)).map (·.1) ++ w.accepted

/-- Each was recorded once and is spent. -/
structure Once (policy : RangePolicy) (w : World) : Prop where
  nodup : w.begun.Nodup
  spent : ∀ att ∈ w.begun, Spent policy w.file att

lemma Once.step (hage : 0 < policy.maxAgeMs)
    (hok : ∀ r t, ok r t → policy.maxAgeMs + policy.maxClockSkewMs < r ∧ t < 2 ^ 64 - 1)
    {w w' : World} (h : Once policy w) (hstep : Step kelDigest policy ok w w') : Once policy w' := by
  cases hstep with
  | «begin» att ctx disk hpolicy hchecks =>
    obtain ⟨hgrows, htrue⟩ := tryCheckAndRecord_spec disk w.file att.initiatorKey ctx.nowMs
    by_cases hrec : (tryCheckAndRecord disk w.file att.initiatorKey ctx.nowMs).1 = some true
    · obtain ⟨hunseen, hclock, hseen, hlatest⟩ := htrue hrec
      have htime := timely_of_checks hchecks
      simp only [timely, hpolicy, decide_eq_true_eq] at htime
      have hfinish : att.fields.finishedAtMs ≤ ctx.nowMs + policy.maxClockSkewMs := by omega
      have hnew : att ∉ w.begun := fun hmem => by
        rcases h.spent att hmem with ⟨hin, -⟩ | hold
        · exact hunseen hin
        · omega
      have hbegun : ∀ file, World.begun ⟨file, (att, ctx.nowMs, true) :: w.pending, w.accepted⟩ =
          att :: w.begun := fun file => by simp [World.begun]
      simp only [hrec, decide_true]
      refine ⟨?_, ?_⟩
      · rw [hbegun]
        exact nodup_cons.mpr ⟨hnew, h.nodup⟩
      · rw [hbegun]
        exact forall_mem_cons.mpr
          ⟨.inl ⟨hseen, hfinish.trans (Nat.add_le_add_right hlatest _)⟩,
            fun a ha => (h.spent a ha).grows hgrows⟩
    · simp only [hrec, decide_false]
      exact ⟨by simpa [World.begun] using h.nodup,
        fun a ha => (h.spent a (by simpa [World.begun] using ha)).grows hgrows⟩
  | @finish att nowMs recorded disk hmem =>
    obtain ⟨hgrows, -⟩ := tryCheckAndRecord_spec disk w.file att.responderKey nowMs
    have hperm : w.begun.Perm ((if recorded then [att] else []) ++
        ((w.pending.erase (att, nowMs, recorded)).filter (·.2.2)).map (·.1) ++ w.accepted) := by
      refine ((((perm_cons_erase hmem).filter _).map _).append_right _).trans ?_
      cases recorded <;> simp
    split
    next hboth =>
      -- the call moves from the pending ones to the accepted ones
      simp only [hboth.1, if_true] at hperm ⊢
      have hbegun : w.begun.Perm _ := hperm.trans perm_middle.symm
      exact ⟨hbegun.nodup_iff.mp h.nodup,
        fun a ha => (h.spent a (hbegun.mem_iff.mpr ha)).grows hgrows⟩
    · have hsublist := sublist_append_right (if recorded then [att] else [])
        (((w.pending.erase (att, nowMs, recorded)).filter (·.2.2)).map (·.1) ++ w.accepted)
      rw [← append_assoc] at hsublist
      exact ⟨(hperm.nodup_iff.mp h.nodup).sublist hsublist,
        fun a ha => (h.spent a (hperm.mem_iff.mpr (hsublist.subset ha))).grows hgrows⟩
  | @prune disk retentionMs nowMs hr =>
    obtain ⟨hretention, hnow⟩ := hok _ _ hr
    exact ⟨h.nodup, fun a ha => (h.spent a ha).prune hretention hnow⟩
  | @crash pending hsub =>
    have hsublist : (World.begun { w with pending }).Sublist w.begun :=
      ((hsub.filter _).map _).append (List.Sublist.refl _)
    exact ⟨h.nodup.sublist hsublist, fun a ha => h.spent a (hsublist.subset ha)⟩

/-! ### A sample attestation -/

def samplePolicy : RangePolicy := ⟨50, 1, 1000, 5, 10, none⟩

def sampleAttestation : PresenceAttestation where
  fields :=
    { version := 1, channelBinding := Hash.zero, initiator := ⟨⟨"a"⟩, Hash.zero, Hash.zero⟩
      responder := ⟨⟨"b"⟩, Hash.zero, Vector.replicate 32 1⟩, startedAtMs := 0, finishedAtMs := 5
      rttSamplesMs := [1], transport := .ble, locationCommitment := none, uwb := none }
  initiatorSig := []
  responderSig := []

/-- Logs for which every delegation carries every capability. -/
structure AllowedKel where
  did : Did

instance : KelOps AllowedKel where
  did := AllowedKel.did
  verifyDelegation _ _ := .ok Capabilities.all
  verifyMessage _ _ _ := .ok ()

def sampleContext (nowMs : ℕ) : VerifyContext AllowedKel :=
  ⟨⟨⟨"r"⟩⟩, ⟨⟨"s"⟩⟩, ⟨⟨"a"⟩⟩, ⟨⟨"b"⟩⟩, samplePolicy, nowMs, none⟩

def sampleDisk : Disk := ⟨true, false, .replaced, .flushed, .replaced⟩

/-- The file after the attestation was accepted at time 0 with a finish time at the edge of the
skew. -/
def sampleFile : GuardFile :=
  (verifyPresence (fun _ => Hash.zero) sampleAttestation (sampleContext 0) (fun _ => false) sampleDisk
    sampleDisk ⟨[], false, 0⟩).2

end Mininet.Presence

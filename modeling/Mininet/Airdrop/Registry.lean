import Mininet.Identity.Controller
import Mininet.Identity.WitnessJournal

/-!
# Airdrop claims

An identity redeems what a snapshot allots to it by a signed request. Its outcome is reserved in a
directory that processes share: under one lock the reservation is read, decided upon and written,
and it is awarded when it is durable. Any file operation may fail, and the machine may crash between
any two.
-/

namespace Mininet.Airdrop

open Codec Fallible Identity List

def keyDomain : Bytes := utf8 "mini-airdrop/claim-reservation-key/v2"

def recordDomain : Bytes := utf8 "mini-airdrop/claim-reservation-record/v2"

def maxRecordBytes : ℕ := 2048

def maxRecipientBytes : ℕ := 256

def maxCampaignIdBytes : ℕ := 128

inductive AirdropError where
  | campaignIdTooLong
  | recipientTooLong
  | campaignMismatch
  | identityMismatch
  | badKel (e : IdentityError)
  | signatureThresholdNotMet
  | notEligible
  | alreadyClaimed
  | corruptReservationRecord

structure AllocationEntry where
  identityRoot : Did
  amountMicro : UInt64

structure AirdropSnapshot where
  campaignId : Bytes
  entries : List AllocationEntry

def AirdropSnapshot.entryFor (s : AirdropSnapshot) (root : Did) : Option AllocationEntry :=
  s.entries.find? fun e => e.identityRoot = root

structure ClaimRequest where
  campaignId : Bytes
  identityRoot : Did
  recipient : Bytes
  sequence : UInt64

def messageToSign (r : ClaimRequest) : Bytes :=
  utf8 "mini-airdrop/claim-request/v1" ++ framed UInt32 r.campaignId ++
    framed UInt32 (utf8 r.identityRoot.asStr) ++ framed UInt32 r.recipient ++ toBeBytes r.sequence

structure ClaimOutcome where
  identityRoot : Did
  amountMicro : UInt64
  recipient : Bytes

def ClaimOutcome.message (o : ClaimOutcome) : Bytes :=
  utf8 "mini-airdrop/claim-outcome-digest/v1" ++ (framed UInt32 (utf8 o.identityRoot.asStr) ++
    (toBeBytes o.amountMicro ++ framed UInt32 o.recipient))

/-- A claim that passed every check before the reservation. -/
structure Claim where
  campaign : Bytes
  identity : Did
  outcome : ClaimOutcome
  atMs : UInt64

/-- The lengths are such that a record can be read back. -/
structure Claim.Short (c : Claim) : Prop where
  campaign : c.campaign.length ≤ maxCampaignIdBytes
  identity : (utf8 c.identity.asStr).length ≤ 78
  root : c.outcome.identityRoot = c.identity
  recipient : c.outcome.recipient.length ≤ maxRecipientBytes

/-- The arguments of a call. -/
structure Call where
  snapshot : AirdropSnapshot
  request : ClaimRequest
  sigs : List IndexedSig
  kel : Kel
  nowMs : UInt64

section

variable [KeyPrimitives]

def outcomeDigest (o : ClaimOutcome) : Hash := blake3 o.message

/-- The checks of a call, up to the lock of the registry. -/
def Call.resolve (call : Call) : Except AirdropError Claim := do
  let request := call.request
  failIf (maxRecipientBytes < request.recipient.length) .recipientTooLong
  failIf (request.campaignId ≠ call.snapshot.campaignId) .campaignMismatch
  let _ ← call.kel.verify.mapError .badKel
  let did ← (Did.fromScid call.kel.scid).mapError .badKel
  failIf (did ≠ request.identityRoot) .identityMismatch
  (call.kel.verifyMessage (messageToSign request) call.sigs).mapError
    fun _ => .signatureThresholdNotMet
  let entry ← okOr (call.snapshot.entryFor request.identityRoot) .notEligible
  failIf (maxCampaignIdBytes < request.campaignId.length) .campaignIdTooLong
  return ⟨request.campaignId, request.identityRoot,
    ⟨entry.identityRoot, entry.amountMicro, request.recipient⟩, call.nowMs⟩

variable {c : Claim} {files : Hash → Option Bytes} {w : World}

lemma Call.short_of_resolve [LawfulKeys] {call : Call} (h : call.resolve = .ok c) : c.Short := by
  rw [Call.resolve, failIf_bind_ok] at h
  simp only [↓failIf_bind_ok, bind_ok] at h
  obtain ⟨hrecipient, -, _, -, did, hdid, hsame, _, -, entry, hentry, hcampaign, h⟩ := h
  cases h
  obtain ⟨hvalid, rfl⟩ := Did.fromScid_ok.mp (mapError_ok.mp hdid)
  have hlength := (scidText_of_validateScid hvalid).length_le
  have hfound := List.find?_some (okOr_ok.mp hentry)
  refine ⟨not_lt.mp hcampaign, ?_, of_decide_eq_true hfound, not_lt.mp hrecipient⟩
  simp only [← not_not.mp hsame, utf8_asStr, length_append, length_cons, length_nil]
  omega

/-! ### Records -/

def binding (campaign : Bytes) (identity : Did) : Bytes :=
  framed UInt64 campaign ++ framed UInt64 (utf8 identity.asStr)

/-- The digest that names the file of a reservation. -/
def reservationPath (campaign : Bytes) (identity : Did) : Hash :=
  blake3 (keyDomain ++ binding campaign identity)

def recordStart (campaign : Bytes) (identity : Did) : Bytes :=
  recordDomain ++ binding campaign identity

def encodeRecord (campaign : Bytes) (identity : Did) (digest : Hash) (atMs : UInt64) : Bytes :=
  let out := recordStart campaign identity ++ (digest.bytes ++ toBeBytes atMs)
  out ++ (blake3 out).bytes

/-- Read a record: the digest of its outcome, and its time. -/
def readRecord (bytes campaign : Bytes) (identity : Did) : Except AirdropError (Bytes × Bytes) := do
  let start := recordStart campaign identity
  let stop := start.length + 40
  failIf (bytes.length ≠ stop + 32 ∨ maxRecordBytes < bytes.length ∨ ¬ start <+: bytes ∨
    (blake3 (bytes.take stop)).bytes ≠ bytes.drop stop) .corruptReservationRecord
  let body := (bytes.take stop).drop start.length
  return (body.take 32, body.drop 32)

/-- What is written is read. -/
lemma readRecord_encodeRecord (h : c.Short) (digest : Hash) (atMs : UInt64) :
    readRecord (encodeRecord c.campaign c.identity digest atMs) c.campaign c.identity =
      .ok (digest.bytes, toBeBytes atMs) := by
  have hdigest : digest.bytes.length = 32 := by simp [Hash.bytes]
  have hsum (out : Bytes) : (blake3 out).bytes.length = 32 := by simp [Hash.bytes]
  have hstop : (recordStart c.campaign c.identity ++ (digest.bytes ++ toBeBytes atMs)).length =
      (recordStart c.campaign c.identity).length + 40 := by
    simp [hdigest]
  have hstart : (recordStart c.campaign c.identity).length ≤ 262 := by
    have hdomain : recordDomain.length = 40 := by decide +kernel
    have hcampaign := h.campaign
    have hidentity := h.identity
    rw [maxCampaignIdBytes] at hcampaign
    simp only [recordStart, binding, length_append, length_framed, hdomain]
    omega
  rw [readRecord, encodeRecord]
  dsimp only
  rw [← hstop, take_left, drop_left, drop_left]
  refine failIf_bind_ok.mpr ⟨?_, ?_⟩
  · rw [length_append, hsum, hstop, maxRecordBytes]
    simp only [not_or, not_not, not_lt, ne_eq]
    refine ⟨trivial, by omega, ?_, trivial⟩
    rw [append_assoc]
    exact prefix_append _ _
  · rw [← hdigest, take_left, drop_left]
    rfl

/-! ### The directory -/

/-- How far the call has come that holds the lock. -/
inductive Phase where
  | locked
  | writing
  | syncing

/-- The files as processes see them and as they would be after a crash of the machine, the call that
holds the lock, and the claims that were awarded. -/
structure World where
  files : Hash → Option Bytes
  disk : Hash → Option Bytes
  running : Option (Phase × Claim)
  awarded : List Claim

/-- A directory that nobody uses. -/
def World.open (files : Hash → Option Bytes) : World := ⟨files, files, none, []⟩

def Claim.path (c : Claim) : Hash := reservationPath c.campaign c.identity

/-- What a call goes on to do when it has read its reservation. -/
def afterRead (files : Hash → Option Bytes) (c : Claim) : Except AirdropError Phase :=
  match files c.path with
  | none => .ok .writing
  | some bytes => do
    let (existing, _) ← readRecord bytes c.campaign c.identity
    failIf (existing ≠ (outcomeDigest c.outcome).bytes) .alreadyClaimed
    return .syncing

inductive Event where
  /-- A call makes its checks and, if they pass, takes the lock. -/
  | call (call : Call)
  | read
  /-- The record is installed whole. -/
  | rename
  /-- The barriers succeed, and the call returns its outcome. -/
  | sync
  /-- A file operation fails, or the process ends. -/
  | fail
  /-- The system writes an entry out on its own. -/
  | flush (path : Hash)
  | crash

namespace World

def flushed (w : World) (path : Hash) : World :=
  { w with disk := Function.update w.disk path (w.files path) }

def step (w : World) : Event → World
  | .call call => match w.running, call.resolve with
    | none, .ok c => { w with running := some (.locked, c) }
    | _, _        => w
  | .read => match w.running with
    | some (.locked, c) =>
      { w with running := (afterRead w.files c).toOption.map (·, c) }
    | _ => w
  | .rename => match w.running with
    | some (.writing, c) =>
      { w with
        files := Function.update w.files c.path
          (some (encodeRecord c.campaign c.identity (outcomeDigest c.outcome) c.atMs))
        running := some (.syncing, c) }
    | _ => w
  | .sync => match w.running with
    | some (.syncing, c) => { w.flushed c.path with running := none, awarded := c :: w.awarded }
    | _ => w
  | .fail => { w with running := none }
  | .flush path => w.flushed path
  | .crash => { w with files := w.disk, running := none }

def run (w : World) (events : List Event) : World := events.foldl step w

end World

/-- The reservation of a claim is there, for its outcome. -/
def Claim.Recorded (files : Hash → Option Bytes) (c : Claim) : Prop :=
  ∃ bytes at_, files c.path = some bytes ∧ readRecord bytes c.campaign c.identity =
    .ok ((outcomeDigest c.outcome).bytes, at_)

/-- What the lock holder may rely on. -/
def Phase.Sound (files : Hash → Option Bytes) (c : Claim) : Phase → Prop
  | .locked  => True
  | .writing => files c.path = none
  | .syncing => c.Recorded files

/-- What holds of a directory at any time: what was awarded is durable. -/
structure World.Sound (w : World) : Prop where
  awarded : ∀ c ∈ w.awarded, c.Short ∧ c.Recorded w.files ∧ w.disk c.path = w.files c.path
  running : ∀ phase c, w.running = some (phase, c) → c.Short ∧ phase.Sound w.files c

lemma afterRead_sound {phase : Phase}
    (h : afterRead files c = .ok phase) : phase.Sound files c := by
  rw [afterRead] at h
  split at h
  next hnone =>
    cases h
    exact hnone
  next bytes hbytes =>
    obtain ⟨⟨existing, at_⟩, hread, h⟩ := bind_ok.mp h
    obtain ⟨hsame, h⟩ := failIf_bind_ok.mp h
    cases h
    exact ⟨bytes, at_, hbytes, not_not.mp hsame ▸ hread⟩

lemma afterRead_of_recorded (h : c.Recorded files) : afterRead files c = .ok .syncing := by
  obtain ⟨bytes, at_, hbytes, hread⟩ := h
  rw [afterRead, hbytes]
  exact bind_ok.mpr ⟨_, hread, failIf_bind_ok.mpr ⟨not_not.mpr rfl, rfl⟩⟩

lemma World.Sound.flushed (hw : w.Sound) (path : Hash) : (w.flushed path).Sound := by
  refine ⟨fun c hc => ?_, hw.running⟩
  obtain ⟨hshort, hrecorded, hdisk⟩ := hw.awarded c hc
  refine ⟨hshort, hrecorded, ?_⟩
  by_cases hpath : c.path = path
  · simp [World.flushed, hpath]
  · simpa [World.flushed, hpath] using hdisk

variable [LawfulKeys]

lemma World.Sound.step (hw : w.Sound) (event : Event) : (w.step event).Sound := by
  cases event with
  | call call =>
    rw [World.step]
    split
    next c _ hc =>
      refine ⟨hw.awarded, ?_⟩
      rintro _ _ ⟨⟩
      exact ⟨Call.short_of_resolve hc, trivial⟩
    next => exact hw
  | read =>
    rw [World.step]
    split
    next c hrunning =>
      refine ⟨hw.awarded, fun phase c' hc' => ?_⟩
      obtain ⟨_, hread, ⟨⟩⟩ := Option.map_eq_some_iff.mp hc'
      exact ⟨(hw.running _ c hrunning).1, afterRead_sound (toOption_some.mp hread)⟩
    next => exact hw
  | rename =>
    rw [World.step]
    split
    next c hrunning =>
      obtain ⟨hshort, hnone⟩ := hw.running _ c hrunning
      refine ⟨fun c' hc' => ?_, ?_⟩
      · -- no awarded claim has its reservation in the file that was missing
        obtain ⟨hshort', ⟨bytes, at_, hbytes, hread⟩, hdisk⟩ := hw.awarded c' hc'
        have hne : c'.path ≠ c.path := by
          intro heq
          rw [heq, show w.files c.path = none from hnone] at hbytes
          cases hbytes
        refine ⟨hshort', ⟨bytes, at_, ?_, hread⟩, ?_⟩
        · simpa [hne] using hbytes
        · simpa [hne] using hdisk
      · rintro _ _ ⟨⟩
        exact ⟨hshort, _, _, Function.update_self .., readRecord_encodeRecord hshort _ _⟩
    next => exact hw
  | sync =>
    rw [World.step]
    split
    next c hrunning =>
      obtain ⟨hshort, hrecorded⟩ := hw.running _ c hrunning
      refine ⟨forall_mem_cons.mpr ⟨⟨hshort, hrecorded, ?_⟩, (hw.flushed c.path).awarded⟩, nofun⟩
      exact Function.update_self ..
    next => exact hw
  | fail => exact ⟨hw.awarded, nofun⟩
  | flush path => exact hw.flushed path
  | crash =>
    refine ⟨fun c hc => ?_, nofun⟩
    obtain ⟨hshort, ⟨bytes, at_, hbytes, hread⟩, hdisk⟩ := hw.awarded c hc
    exact ⟨hshort, ⟨bytes, at_, hdisk.trans hbytes, hread⟩, rfl⟩

lemma World.sound_run (files : Hash → Option Bytes) (events : List Event) :
    ((World.open files).run events).Sound := by
  have hopen : (World.open files).Sound := ⟨nofun, nofun⟩
  exact List.foldlRecOn events World.step hopen fun _ hw event _ => hw.step event

omit [KeyPrimitives] [LawfulKeys] in
lemma ClaimOutcome.message_inj {c' : Claim} (h : c.Short) (h' : c'.Short)
    (hmessage : c.outcome.message = c'.outcome.message) : c.outcome = c'.outcome := by
  have hroot : (utf8 c.outcome.identityRoot.asStr).length < 256 ^ 4 := by
    rw [h.root]
    exact h.identity.trans_lt (by decide)
  have hroot' : (utf8 c'.outcome.identityRoot.asStr).length < 256 ^ 4 := by
    rw [h'.root]
    exact h'.identity.trans_lt (by decide)
  obtain ⟨hidentity, hrest⟩ := framed_append_inj hroot hroot' (append_cancel_left hmessage)
  obtain ⟨hamount, hrecipient⟩ := append_inj hrest (by simp)
  have hlength : c.outcome.recipient.length < 256 ^ 4 := h.recipient.trans_lt (by decide)
  have hlength' : c'.outcome.recipient.length < 256 ^ 4 := h'.recipient.trans_lt (by decide)
  obtain ⟨hrecipient, -⟩ := framed_append_inj (r := []) (s := []) hlength hlength'
    (by simpa using hrecipient)
  cases hc : c.outcome
  cases hc' : c'.outcome
  simp only [hc, hc'] at hidentity hamount hrecipient
  rw [Did.asStr_injective (utf8_injective hidentity), toBeBytes_injective hamount, hrecipient]

/-- Along every run of calls, failures and crashes over any directory, the claims that are awarded
for one campaign and identity have one outcome, as long as the digests of their outcomes do not
collide; the call that repeats an awarded outcome is awarded again; and a call that fails a check
changes nothing. -/
theorem awarded_once (files : Hash → Option Bytes) (events : List Event)
    (hfree : Set.InjOn blake3
      {m | ∃ c ∈ ((World.open files).run events).awarded, c.outcome.message = m}) :
    let w := (World.open files).run events
    (∀ c ∈ w.awarded, ∀ c' ∈ w.awarded, c.campaign = c'.campaign → c.identity = c'.identity →
      c.outcome = c'.outcome) ∧
    (∀ c ∈ w.awarded, ∀ call c', call.resolve = .ok c' → c'.campaign = c.campaign →
      c'.outcome = c.outcome → w.running = none →
      w.run [.call call, .read, .sync] = { w with awarded := c' :: w.awarded }) ∧
    ∀ call e, call.resolve = .error e → w.step (.call call) = w := by
  intro w
  have hw := World.sound_run files events
  refine ⟨fun c hc c' hc' hcampaign hidentity => ?_, ?_, ?_⟩
  · obtain ⟨hshort, ⟨bytes, at_, hbytes, hread⟩, -⟩ := hw.awarded c hc
    obtain ⟨hshort', ⟨bytes', at', hbytes', hread'⟩, -⟩ := hw.awarded c' hc'
    -- both are in one file, and it is read in one way
    rw [Claim.path, hcampaign, hidentity] at hbytes
    obtain rfl := Option.some.inj (hbytes.symm.trans hbytes')
    rw [hcampaign, hidentity, hread'] at hread
    have hdigest := Hash.bytes_injective (congrArg Prod.fst (Except.ok.inj hread))
    exact ClaimOutcome.message_inj hshort hshort' (hfree ⟨c, hc, rfl⟩ ⟨c', hc', rfl⟩ hdigest.symm)
  · intro c hc call c' hcall hcampaign houtcome hidle
    obtain ⟨hshort, hrecorded, hdisk⟩ := hw.awarded c hc
    have hidentity : c'.identity = c.identity := by
      rw [← (Call.short_of_resolve hcall).root, houtcome, hshort.root]
    have hpath : c'.path = c.path := by rw [Claim.path, Claim.path, hcampaign, hidentity]
    have hrecorded' : c'.Recorded w.files := by
      rwa [Claim.Recorded, hpath, hcampaign, hidentity, houtcome]
    have hsame : Function.update w.disk c'.path (w.files c'.path) = w.disk := by
      rw [hpath, ← hdisk, Function.update_eq_self]
    simp [World.run, World.step, World.flushed, hidle, hcall, afterRead_of_recorded hrecorded',
      Except.toOption, hsame]
  · intro call e hcall
    rw [World.step, hcall]
    cases w.running <;> rfl

end

def sampleCall : Option Call :=
  letI := KeyPrimitives.sample
  do
    let c ← (Controller.incept [sampleKey 0] 1 [sampleKey 1] 1).toOption
    let request : ClaimRequest := ⟨[1], ⟨c.kel.scid⟩, [2], 0⟩
    let sigs ← c.signMessage (messageToSign request)
    return ⟨⟨[1], [⟨⟨c.kel.scid⟩, 5⟩]⟩, request, sigs, c.kel, 7⟩

/-- A claim is awarded, the machine crashes, and the claim is awarded again. -/
theorem sample_awarded_once :
    letI := KeyPrimitives.sample
    ∃ call c, Call.resolve call = .ok c ∧ (((World.open fun _ => none).run
      [.call call, .read, .rename, .sync, .crash]).run [.call call, .read, .sync]).awarded =
        [c, c] := by
  let := KeyPrimitives.sample
  have := lawfulKeys_sample
  obtain ⟨c, hc⟩ := Option.isSome_iff_exists.mp
    (show (sampleCall.bind fun call => call.resolve.toOption).isSome = true by decide +kernel)
  obtain ⟨call, -, hcall⟩ := Option.bind_eq_some_iff.mp hc
  have hcall := toOption_some.mp hcall
  have hrun : ((World.open fun _ => none).run [.call call, .read, .rename, .sync, .crash]).running =
      none ∧ ((World.open fun _ => none).run
        [.call call, .read, .rename, .sync, .crash]).awarded = [c] := by
    simp [World.run, World.step, World.open, World.flushed, hcall, afterRead, Except.toOption]
  obtain ⟨-, hretry, -⟩ := awarded_once (fun _ => none) [.call call, .read, .rename, .sync, .crash]
    (by rw [hrun.2]; intro m hm m' hm' _; simp_all)
  refine ⟨call, c, hcall, ?_⟩
  rw [hretry c (by simp [hrun.2]) call c hcall rfl rfl hrun.1, hrun.2]

end Mininet.Airdrop

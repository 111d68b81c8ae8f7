import Mininet.Identity.Event

/-!
# Key event logs

The public history of an identity and its replay: the identifier certifies the inception, every
event is chained to the one before and signed to threshold by the keys in control, and a rotation
reveals the keys that were committed to.
-/

namespace Mininet.Identity

open Codec Fallible List

/-- The keys in control at some point of a log. -/
structure KeyState where
  keys : List VerifyingKey
  threshold : UInt32
  sn : UInt64
  nextCommitments : List Bytes
  nextThreshold : UInt32
  deriving DecidableEq

structure Kel where
  scid : String
  events : List Event
  deriving DecidableEq

/-- What the replay carries from one event to the next. -/
structure Replay where
  keys : List VerifyingKey
  threshold : UInt32
  next : List Bytes
  nextThreshold : UInt32
  prevDigest : Bytes

namespace Replay

/-- The key state after the event with sequence number `sn`. -/
def keyState (r : Replay) (sn : UInt64) : KeyState :=
  ⟨r.keys, r.threshold, sn, r.next, r.nextThreshold⟩

/-- An establishment takes control. -/
def establish (est : Establishment) (digest : Bytes) : Replay :=
  ⟨est.keys, est.threshold, est.next, est.nextThreshold, digest⟩

end Replay

/-! ### Witness policies -/

abbrev WitnessId := Did

structure WitnessPolicy where
  generation : UInt64
  witnesses : List WitnessId
  threshold : UInt16
  deriving DecidableEq

namespace WitnessPolicy

def new (generation : UInt64) (witnesses : List WitnessId) (threshold : UInt16) :
    Except IdentityError WitnessPolicy := do
  failIf (witnesses = []) .emptyWitnessSet
  failIf (maxWitnesses < witnesses.length)
    (.tooManyItems "witnesses" maxWitnesses witnesses.length)
  failIf (threshold = 0 ∨ witnesses.length < threshold.toNat)
    (.invalidWitnessThreshold threshold witnesses.length)
  checkDistinct (fun _ => .ok ()) .duplicateWitness [] witnesses
  return ⟨generation, witnesses, threshold⟩

def contains (policy : WitnessPolicy) (id : WitnessId) : Bool := decide (id ∈ policy.witnesses)

lemma new_ok {generation : UInt64} {witnesses : List WitnessId} {threshold : UInt16}
    {policy : WitnessPolicy} :
    new generation witnesses threshold = .ok policy ↔
      (0 < threshold.toNat ∧ threshold.toNat ≤ witnesses.length ∧
        witnesses.length ≤ maxWitnesses ∧ witnesses.Nodup) ∧
      policy = ⟨generation, witnesses, threshold⟩ := by
  have hzero : threshold = 0 ↔ threshold.toNat = 0 := UInt16.toNat_inj.symm
  rw [new, failIf_bind_ok, failIf_bind_ok, failIf_bind_ok, bind_ok, hzero, not_or]
  constructor
  · rintro ⟨-, hmax, ⟨hpos, hle⟩, ⟨⟩, hdistinct, h⟩
    cases h
    exact ⟨⟨Nat.pos_of_ne_zero hpos, not_lt.mp hle, not_lt.mp hmax,
      (checkDistinct_ok.mp hdistinct).2⟩, rfl⟩
  · rintro ⟨⟨hpos, hle, hmax, hnodup⟩, rfl⟩
    refine ⟨?_, not_lt.mpr hmax, ⟨hpos.ne', not_lt.mpr hle⟩, (),
      checkDistinct_ok.mpr ⟨fun _ _ => rfl, hnodup⟩, rfl⟩
    rintro rfl
    simp only [length_nil] at hle
    omega

end WitnessPolicy

/-- The policy an establishment declares, when it is one. -/
def Establishment.policy [Primitives] (est : Establishment) (sn : UInt64) :
    Option WitnessPolicy := do
  guard (est.witnesses ≠ [])
  let witnesses ← est.witnesses.mapM fun bytes => do (Did.parse (← ofUtf8 bytes)).toOption
  guard (est.witnessThreshold.toNat < 2 ^ 16)
  (WitnessPolicy.new sn witnesses est.witnessThreshold.toUInt16).toOption

namespace Kel

def did (kel : Kel) : Did := ⟨kel.scid⟩

/-! ### What a log says -/

/-- All seals of a log, in order. -/
def seals (kel : Kel) : List Seal :=
  kel.events.flatMap fun e =>
    match e.kind with
    | .seal seals => seals
    | _           => []

/-- The last word on each device, in the order in which they were first delegated. -/
def applySeal (acc : List (String × Capabilities)) : Seal → List (String × Capabilities)
  | .delegate device capabilities =>
    if acc.any (fun entry => entry.1 = device) then
      acc.map fun entry => if entry.1 = device then (entry.1, capabilities) else entry
    else acc ++ [(device, capabilities)]
  | .revoke device => acc.filter fun entry => entry.1 ≠ device

/-- The last establishment of a list of events, and its sequence number. -/
def lastEstablishment (events : List Event) : Option (UInt64 × Establishment) :=
  events.reverse.findSome? fun e => e.kind.establishment?.map fun est => (e.sn, est)

section

variable [Primitives]

/-- The witness policy that the last establishment declares. One without witnesses clears what was
declared before it. -/
def declaredWitnessPolicy (kel : Kel) : Option WitnessPolicy :=
  (lastEstablishment kel.events).bind fun (sn, est) => est.policy sn

/-- The delegator of a device. -/
def delegator (kel : Kel) : Option Did :=
  match kel.events.head?.map Event.kind with
  | some (.delegatedInception _ delegator) => (Did.parse delegator).toOption
  | _                                      => none

/-- The devices a log currently delegates. -/
def delegatedDevices (kel : Kel) : List (Did × Capabilities) :=
  (kel.seals.foldl applySeal []).filterMap fun (device, capabilities) =>
    (Did.parse device).toOption.map fun did => (did, capabilities)

/-- The digest of the last event. -/
def headDigest (kel : Kel) : Except IdentityError Bytes :=
  (okOr kel.events.getLast? .emptyKel).map Event.digest

end

/-! ### Replay -/

section

variable [Primitives]

/-- One event after the inception, at index `i` of the log. -/
def verifyEvent (scid : String) (r : Replay) (entry : Event × ℕ) : Except IdentityError Replay :=
  let (ev, i) := entry
  let sn := UInt64.ofNat i
  do
    failIf (ev.scid ≠ scid) .scidMismatch
    failIf (ev.sn ≠ sn) (.wrongSequence sn ev.sn)
    failIf (ev.prior ≠ r.prevDigest) (.brokenChain sn)
    match ev.kind with
    | .inception _ | .delegatedInception _ _ => .error .notInception
    | .rotation est => do
      validateEstablishment est
      failIf (est.keys.length ≠ r.next.length ∨ est.threshold ≠ r.nextThreshold)
        (.preRotationMismatch sn)
      failIf (¬ (est.keys.zip r.next).all fun (key, commitment) =>
        decide (keyCommitment key = commitment)) (.preRotationMismatch sn)
      -- signed by the keys it reveals, so that a leaked old key does not rotate
      verifyThreshold ev est.keys est.threshold
      return .establish est ev.digest
    | .interaction _ | .seal _ => do
      verifyThreshold ev r.keys r.threshold
      return { r with prevDigest := ev.digest }

end

variable [KeyPrimitives]

/-- A device names its delegator, which is not itself. -/
def checkDelegator (scid : String) : EventKind → Except IdentityError Unit
  | .delegatedInception _ delegator => do
    let did ← Did.parse delegator
    failIf (did.scid = scid) .badEvent
  | _ => .ok ()

/-- The keys of a plain or delegated inception. -/
def inceptionOf : EventKind → Except IdentityError Establishment
  | .inception est            => .ok est
  | .delegatedInception est _ => .ok est
  | _                         => .error .notInception

def verifyInception (scid : String) (first : Event) : Except IdentityError Replay := do
  let icp ← inceptionOf first.kind
  failIf (first.sn ≠ 0 ∨ first.prior ≠ []) .notInception
  validateEstablishment icp
  let _ ← Did.parse (Did.method ++ scid)
  checkDelegator scid first.kind
  -- the identifier certifies the inception it is derived from
  failIf (deriveScid first ≠ first.scid ∨ first.scid ≠ scid) .scidMismatch
  verifyThreshold first icp.keys icp.threshold
  return .establish icp first.digest

/-- Replay the first events of a log. -/
def replay (scid : String) : List Event → Except IdentityError Replay
  | []            => .error .emptyKel
  | first :: rest => do
    let r ← verifyInception scid first
    (rest.zipIdx 1).foldlM (verifyEvent scid) r

/-- Replay the log through the event at index `upto`. -/
def verifyThrough (kel : Kel) (upto : ℕ) : Except IdentityError KeyState := do
  let r ← replay kel.scid (kel.events.take (upto + 1))
  return r.keyState (UInt64.ofNat upto)

def verify (kel : Kel) : Except IdentityError KeyState :=
  kel.verifyThrough (kel.events.length - 1)

/-- Whether signatures over a message reach the threshold of a key state. -/
def checkDetached (msg : Bytes) (sigs : List IndexedSig) (state : KeyState) :
    Except IdentityError Unit :=
  let count := countValidSigners msg state.keys sigs
  failIf (count < state.threshold) (.signatureThresholdNotMet state.threshold count)

/-- Verify detached signatures against the current keys. -/
def verifyMessage (kel : Kel) (msg : Bytes) (sigs : List IndexedSig) :
    Except IdentityError Unit := do
  let state ← kel.verify
  checkDetached msg sigs state

/-- The key state after the event with sequence number `sn`, of a log that verifies to its head. -/
def keyStateAt (kel : Kel) (sn : UInt64) : Except IdentityError KeyState := do
  let state ← kel.verify
  failIf (state.sn < sn) (.unknownSequence sn state.sn)
  kel.verifyThrough sn.toNat

/-- Verify detached signatures against the keys in control at `sn`. -/
def verifyMessageAt (kel : Kel) (sn : UInt64) (msg : Bytes) (sigs : List IndexedSig) :
    Except IdentityError Unit := do
  let state ← kel.keyStateAt sn
  checkDetached msg sigs state

end Kel

/-! ### What replay establishes -/

namespace Kel

/-- An event takes its place behind the event with digest `prior`. -/
structure Chained (scid : String) (prior : Bytes) (ev : Event) (i : ℕ) : Prop where
  scid_eq : ev.scid = scid
  sn_eq : ev.sn = UInt64.ofNat i
  prior_eq : ev.prior = prior

section

variable [Primitives] {scid : String} {r r' : Replay} {ev : Event}

/-- What replaying one event does: a rotation reveals the keys committed to and is signed by them,
anything else is signed by the keys in control and leaves them there. -/
inductive Verified (scid : String) (r : Replay) (ev : Event) (i : ℕ) : Replay → Prop
  | rotation (est : Establishment) (kind : ev.kind = .rotation est)
      (chained : Chained scid r.prevDigest ev i) (valid : validateEstablishment est = .ok ())
      (keys : est.keys.map keyCommitment = r.next) (threshold : est.threshold = r.nextThreshold)
      (signed : verifyThreshold ev est.keys est.threshold = .ok ()) :
      Verified scid r ev i (.establish est ev.digest)
  | other (kind : ev.kind.establishment? = none) (chained : Chained scid r.prevDigest ev i)
      (signed : verifyThreshold ev r.keys r.threshold = .ok ()) :
      Verified scid r ev i { r with prevDigest := ev.digest }

lemma Verified.chained {i : ℕ} (h : Verified scid r ev i r') : Chained scid r.prevDigest ev i := by
  cases h with
  | rotation est kind chained valid keys threshold signed => exact chained
  | other kind chained signed => exact chained

lemma verifyEvent_ok {i : ℕ} : verifyEvent scid r (ev, i) = .ok r' ↔ Verified scid r ev i r' := by
  rw [verifyEvent, failIf_bind_ok, failIf_bind_ok, failIf_bind_ok, not_not, not_not, not_not]
  constructor
  · rintro ⟨hscid, hsn, hprior, h⟩
    have hchained : Chained scid r.prevDigest ev i := ⟨hscid, hsn, hprior⟩
    split at h
    next => cases h
    next => cases h
    next est hkind =>
      simp only [↓failIf_bind_ok, bind_ok, pure_ok, not_or, not_not] at h
      obtain ⟨⟨⟩, hvalid, ⟨hlength, hthreshold⟩, hkeys, ⟨⟩, hsigned, rfl⟩ := h
      exact .rotation est hkind hchained hvalid (zip_all_eq_iff.mp ⟨hlength, hkeys⟩) hthreshold
        hsigned
    all_goals
      next hkind =>
        obtain ⟨⟨⟩, hsigned, h⟩ := bind_ok.mp h
        cases h
        exact .other (by rw [hkind]; rfl) hchained hsigned
  · intro h
    refine ⟨h.chained.scid_eq, h.chained.sn_eq, h.chained.prior_eq, ?_⟩
    cases h with
    | rotation est hkind hchained hvalid hkeys hthreshold hsigned =>
      obtain ⟨hlength, hall⟩ := zip_all_eq_iff.mpr hkeys
      simp only [hkind, ↓failIf_bind_ok, bind_ok, pure_ok, not_or, not_not]
      exact ⟨(), hvalid, ⟨hlength, hthreshold⟩, hall, (), hsigned, trivial⟩
    | other hkind hchained hsigned =>
      match hev : ev.kind, hkind with
      | .interaction _, _ => exact bind_ok.mpr ⟨(), hsigned, rfl⟩
      | .seal _, _ => exact bind_ok.mpr ⟨(), hsigned, rfl⟩

end

variable [KeyPrimitives]

/-- What the first event of a log satisfies. -/
structure Incepted (scid : String) (first : Event) (icp : Establishment) : Prop where
  kind : first.kind = .inception icp ∨ ∃ delegator, first.kind = .delegatedInception icp delegator
  sn_eq : first.sn = 0
  prior_eq : first.prior = []
  valid : validateEstablishment icp = .ok ()
  did : Did.Valid ⟨scid⟩
  delegator : checkDelegator scid first.kind = .ok ()
  derived : deriveScid first = scid
  scid_eq : first.scid = scid
  signed : verifyThreshold first icp.keys icp.threshold = .ok ()

variable {scid : String} {r : Replay} {events : List Event} {first : Event} {s : KeyState}
  {kel : Kel}

omit [KeyPrimitives] in
lemma inceptionOf_ok {kind : EventKind} {icp : Establishment} : inceptionOf kind = .ok icp ↔
    kind = .inception icp ∨ ∃ delegator, kind = .delegatedInception icp delegator := by
  cases kind <;> simp [inceptionOf]

lemma verifyInception_ok : verifyInception scid first = .ok r ↔
      ∃ icp, Incepted scid first icp ∧ r = .establish icp first.digest := by
  simp only [verifyInception, ↓failIf_bind_ok, bind_ok, inceptionOf_ok, pure_ok, not_or, not_not]
  constructor
  · rintro ⟨icp, hkind, ⟨hsn, hprior⟩, ⟨⟩, hvalid, did, hdid, ⟨⟩, hdelegator, ⟨hderived, hscid⟩, ⟨⟩,
      hsigned, rfl⟩
    obtain rfl : did = ⟨scid⟩ := Did.asStr_injective (Did.parse_ok.mp hdid).1.symm
    exact ⟨icp, ⟨hkind, hsn, hprior, hvalid, hdid, hdelegator, hderived.trans hscid, hscid, hsigned⟩,
      rfl⟩
  · rintro ⟨icp, h, rfl⟩
    exact ⟨icp, h.kind, ⟨h.sn_eq, h.prior_eq⟩, (), h.valid, _, h.did, (), h.delegator,
      ⟨h.derived.trans h.scid_eq.symm, h.scid_eq⟩, (), h.signed, rfl⟩

/-- Replaying one more event. -/
lemma replay_append_ok {ev : Event} {r' : Replay} (hne : events ≠ []) :
    replay scid (events ++ [ev]) = .ok r' ↔
      ∃ r, replay scid events = .ok r ∧ Verified scid r ev events.length r' := by
  obtain ⟨first, rest, rfl⟩ := exists_cons_of_ne_nil hne
  simp only [cons_append, replay, zipIdx_append, foldlM_append, bind_ok, zipIdx_singleton,
    foldlM_cons, foldlM_nil, pure_ok, exists_eq_right, verifyEvent_ok, length_cons, Nat.add_comm 1]
  constructor
  · rintro ⟨r0, h0, r, hr, hlast⟩
    exact ⟨r, ⟨r0, h0, hr⟩, hlast⟩
  · rintro ⟨r, ⟨r0, h0, hr⟩, hlast⟩
    exact ⟨r0, h0, r, hr, hlast⟩

lemma replay_singleton_ok : replay scid [first] = .ok r ↔
      ∃ icp, Incepted scid first icp ∧ r = .establish icp first.digest := by
  rw [← verifyInception_ok]
  simp [replay]

/-- A log verifies when it replays to its end. -/
lemma verify_ok :
    kel.verify = .ok s ↔ ∃ r, replay kel.scid kel.events = .ok r ∧
      s = r.keyState (UInt64.ofNat (kel.events.length - 1)) := by
  have htake : kel.events.take (kel.events.length - 1 + 1) = kel.events :=
    take_of_length_le (by omega)
  rw [verify, verifyThrough, htake, bind_ok]
  simp only [pure_ok, eq_comm (a := s)]

/-- What replays is not empty. -/
lemma ne_nil_of_replay (h : replay scid events = .ok r) : events ≠ [] := by
  rintro rfl
  cases h

/-- A log that replays does so from its beginning. -/
lemma exists_replay_of_append {rest : List Event} (hne : events ≠ [])
    (h : replay scid (events ++ rest) = .ok r) : ∃ r₀, replay scid events = .ok r₀ := by
  induction rest using List.reverseRecOn generalizing r with
  | nil => exact ⟨r, by simpa using h⟩
  | append_singleton rest ev ih =>
    rw [← append_assoc] at h
    obtain ⟨mid, hmid, -⟩ := (replay_append_ok (by simp [hne])).mp h
    exact ih hmid

/-- Induction along a replay. -/
lemma replay_induction {P : List Event → Replay → Prop}
    (hfirst : ∀ first icp, Incepted scid first icp → P [first] (.establish icp first.digest))
    (hstep : ∀ events r ev r', events ≠ [] → P events r → Verified scid r ev events.length r' →
      P (events ++ [ev]) r')
    (h : replay scid events = .ok r) : P events r := by
  induction events using List.reverseRecOn generalizing r with
  | nil => cases h
  | append_singleton events ev ih =>
    by_cases hne : events = []
    · subst hne
      obtain ⟨icp, hicp, rfl⟩ := replay_singleton_ok.mp h
      exact hfirst ev icp hicp
    · obtain ⟨mid, hmid, hev⟩ := (replay_append_ok hne).mp h
      exact hstep events mid ev r hne (ih hmid) hev

/-- The digest that the next event must refer to is the last event's. -/
lemma prevDigest_of_replay (h : replay scid events = .ok r) :
    ∃ last, events.getLast? = some last ∧ r.prevDigest = last.digest := by
  refine replay_induction (P := fun events r => ∃ last, events.getLast? = some last ∧
    r.prevDigest = last.digest) (fun first icp _ => ⟨first, rfl, rfl⟩) ?_ h
  intro events r ev r' _ _ hev
  refine ⟨ev, by simp, ?_⟩
  cases hev with
  | rotation est kind chained valid keys threshold signed => rfl
  | other kind chained signed => rfl

/-- The digest before an event is not blank. -/
lemma prevDigest_ne_nil (h : replay scid events = .ok r) : r.prevDigest ≠ [] := by
  obtain ⟨last, -, hlast⟩ := prevDigest_of_replay h
  intro hnil
  have hlength : last.digest.length = 34 := length_multihash _
  rw [← hlast, hnil] at hlength
  cases hlength

/-- Every event names its log and its place there. -/
lemma place_of_replay (h : replay scid events = .ok r) :
    ∀ i e, events[i]? = some e → e.scid = scid ∧ e.sn = UInt64.ofNat i := by
  refine replay_induction (P := fun events _ => ∀ i e, events[i]? = some e →
    e.scid = scid ∧ e.sn = UInt64.ofNat i) ?_ ?_ h
  · intro first icp hicp i e he
    obtain ⟨rfl, rfl⟩ : i = 0 ∧ first = e := by simpa [List.getElem?_singleton] using he
    exact ⟨hicp.scid_eq, hicp.sn_eq⟩
  · intro events r ev r' _ ih hev i e he
    rcases Nat.lt_trichotomy i events.length with hi | rfl | hi
    · rw [List.getElem?_append_left hi] at he
      exact ih i e he
    · rw [List.getElem?_concat_length] at he
      cases he
      exact ⟨hev.chained.scid_eq, hev.chained.sn_eq⟩
    · rw [List.getElem?_eq_none (by simpa using hi)] at he
      cases he

/-- Every event refers to the one before it. -/
lemma prior_of_replay (h : replay scid events = .ok r) :
    ∀ i a b, events[i]? = some a → events[i + 1]? = some b → b.prior = a.digest := by
  induction events using List.reverseRecOn generalizing r with
  | nil => cases h
  | append_singleton events ev ih =>
    intro i a b ha hb
    have hle : i + 1 ≤ events.length := by
      have hlt := (List.getElem?_eq_some_iff.mp hb).1
      rw [length_append, length_singleton] at hlt
      omega
    have hne : events ≠ [] := ne_nil_of_length_pos (by omega)
    obtain ⟨mid, hmid, hev⟩ := (replay_append_ok hne).mp h
    rw [List.getElem?_append_left (by omega)] at ha
    rcases hle.lt_or_eq with hlt | heq
    · rw [List.getElem?_append_left hlt] at hb
      exact ih hmid i a b ha hb
    · obtain ⟨last, hlast, hdigest⟩ := prevDigest_of_replay hmid
      rw [List.getLast?_eq_getElem?, ← heq, Nat.add_sub_cancel, ha] at hlast
      rw [heq, List.getElem?_concat_length] at hb
      cases hlast
      cases hb
      exact hev.chained.prior_eq.trans hdigest

lemma valid_of_replay (h : replay scid events = .ok r) : Did.Valid ⟨scid⟩ :=
  replay_induction (P := fun _ _ => Did.Valid ⟨scid⟩) (fun _ _ hicp => hicp.did)
    (fun _ _ _ _ _ hvalid _ => hvalid) h

lemma valid_did_of_verify (h : kel.verify = .ok s) : kel.did.Valid := by
  obtain ⟨r, hr, -⟩ := verify_ok.mp h
  exact valid_of_replay hr

/-- The keys in control are distinct, and enough for their threshold. -/
structure Controlled (r : Replay) : Prop where
  keys_nodup : (r.keys.map keyFingerprint).Nodup
  threshold_pos : 0 < r.threshold.toNat
  threshold_le : r.threshold.toNat ≤ r.keys.length

lemma controlled_of_replay (h : replay scid events = .ok r) : Controlled r := by
  have hestablish : ∀ est digest, validateEstablishment est = .ok () →
      Controlled (.establish est digest) := fun est digest hvalid =>
    have hest := validateEstablishment_ok.mp hvalid
    ⟨hest.keys_nodup, hest.threshold_pos, hest.threshold_le⟩
  refine replay_induction (P := fun _ r => Controlled r)
    (fun first icp hicp => hestablish _ _ hicp.valid) ?_ h
  intro events r ev r' _ hr hev
  cases hev with
  | rotation est kind chained valid keys threshold signed => exact hestablish _ _ valid
  | other kind chained signed => exact ⟨hr.keys_nodup, hr.threshold_pos, hr.threshold_le⟩

end Kel

/-- Whether a device names a root and the root currently delegates it. -/
def verifyDelegation [KeyPrimitives] (root device : Kel) : Except IdentityError Capabilities := do
  let _ ← root.verify
  let _ ← device.verify
  failIf root.delegator.isSome .rootIsDelegated
  let delegator ← okOr device.delegator .notDelegated
  failIf (delegator.scid ≠ root.scid) .notDelegated
  okOr (root.delegatedDevices.findSome? fun (dev, capabilities) =>
    if dev.asStr = device.did.asStr then some capabilities else none) .notDelegated

instance [KeyPrimitives] : KelOps Kel where
  did := Kel.did
  verifyDelegation := verifyDelegation
  verifyMessage := Kel.verifyMessage

end Mininet.Identity

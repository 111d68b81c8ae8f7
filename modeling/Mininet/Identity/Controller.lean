import Mininet.Identity.Kel
import Mininet.Lib.Stateful

/-!
# The controller

The half of an identity that holds the secret keys. It builds, signs and appends key events in
place. `Move` is what appending one event does to a controller; every call is a chain of moves, and
a call that fails before it appends anything leaves the controller as it was.
-/

namespace Mininet.Identity

open Codec Fallible Stateful

structure Controller where
  scid : String
  suite : SignatureSuite
  current : List SigningKey
  currentThreshold : UInt32
  /-- The keys of the next rotation. -/
  next : List SigningKey
  nextThreshold : UInt32
  delegator : Option Did
  events : List Event

variable [KeyPrimitives]

/-- Sign an event, each signature at the index of its key. -/
def signEvent (event : Event) (signers : List SigningKey) : Except Fault Event := do
  let msg := event.signingBytes
  let signatures ← okOr (signers.zipIdx.mapM fun (sk, i) =>
    (sk.sign msg).map fun signature => ⟨UInt32.ofNat i, signature⟩) .panic
  return { event with signatures }

/-- The establishment that puts `current` in control and commits to `next`. -/
def establishing (current : List SigningKey) (threshold : UInt32) (next : List SigningKey)
    (nextThreshold : UInt32) (witnesses : List Did) (witnessThreshold : UInt32) :
    Establishment where
  keys := current.map SigningKey.verifyingKey
  threshold := threshold
  next := next.map fun k => keyCommitment k.verifyingKey
  nextThreshold := nextThreshold
  witnesses := witnesses.map fun did => utf8 did.asStr
  witnessThreshold := witnessThreshold

/-- As many fresh keys as there are in `prototype`, from what the operating system gives for each;
it may give nothing. -/
def generateLike (entropy : ℕ → Option Hash) (prototype : List SigningKey) :
    Except IdentityError (List SigningKey) :=
  prototype.zipIdx.mapM fun (_, i) => (okOr (entropy i) (.crypto .entropy)).map .ed25519

namespace Controller

/-! ### Making a controller -/

def inceptInner (current : List SigningKey) (currentThreshold : UInt32) (next : List SigningKey)
    (nextThreshold : UInt32) (delegator : Option Did) : Except Fault Controller := do
  let first ← okOr current.head? (.error .emptyKeySet)
  failIf (next = []) (.error .emptyKeySet)
  let suite := first.suite
  let establishment := establishing current currentThreshold next nextThreshold [] 0
  (validateEstablishment establishment).mapError .error
  let kind := match delegator with
    | none   => .inception establishment
    | some d => .delegatedInception establishment d.asStr
  let icp : Event := ⟨suite, "", 0, [], kind, []⟩
  let scid := deriveScid icp
  let icp ← signEvent { icp with scid } current
  return ⟨scid, suite, current, currentThreshold, next, nextThreshold, delegator, [icp]⟩

def incept (current : List SigningKey) (currentThreshold : UInt32) (next : List SigningKey)
    (nextThreshold : UInt32) : Except Fault Controller :=
  inceptInner current currentThreshold next nextThreshold none

def inceptDevice (delegator : Did) (current : List SigningKey) (currentThreshold : UInt32)
    (next : List SigningKey) (nextThreshold : UInt32) : Except Fault Controller :=
  inceptInner current currentThreshold next nextThreshold (some delegator)

def did (c : Controller) : Did := ⟨c.scid⟩

/-- The key state as the controller sees it. -/
def keyState (c : Controller) : KeyState where
  keys := c.current.map SigningKey.verifyingKey
  threshold := c.currentThreshold
  sn := UInt64.ofNat c.events.length - 1
  nextCommitments := c.next.map fun k => keyCommitment k.verifyingKey
  nextThreshold := c.nextThreshold

/-- The public log. -/
def kel (c : Controller) : Kel := ⟨c.scid, c.events⟩

/-- Sign a message with every key in control, unless one of them does not sign. -/
def signMessage (c : Controller) (msg : Bytes) : Option (List IndexedSig) :=
  c.current.zipIdx.mapM fun (sk, i) =>
    (sk.sign msg).map fun signature => ⟨UInt32.ofNat i, signature⟩

/-! ### Calls on a controller -/

/-- Build, sign and append an event. -/
def append (kind : EventKind) (signers : List SigningKey) : InPlace Controller Fault Unit := do
  let c ← get
  let last ← check (okOr c.events.getLast? .panic)
  let ev ← check (signEvent
    ⟨c.suite, c.scid, UInt64.ofNat c.events.length, last.digest, kind, []⟩ signers)
  modify fun c => { c with events := c.events ++ [ev] }
  return ()

def rotateWithNextAndThreshold (newNext : List SigningKey) (newNextThreshold : UInt32) :
    InPlace Controller Fault Unit := do
  let c ← get
  check (failIf (newNext = []) (.error .emptyKeySet))
  let establishment := establishing c.next c.nextThreshold newNext newNextThreshold [] 0
  check ((validateEstablishment establishment).mapError .error)
  append (.rotation establishment) c.next
  modify fun c' => { c' with
    current := c.next
    currentThreshold := c.nextThreshold
    next := newNext
    nextThreshold := newNextThreshold }
  return ()

/-- The threshold carries over. -/
def rotateWithNext (newNext : List SigningKey) : InPlace Controller Fault Unit := do
  let c ← get
  rotateWithNextAndThreshold newNext c.nextThreshold

def rotate (entropy : ℕ → Option Hash) : InPlace Controller Fault Unit := do
  let c ← get
  let newNext ← check ((generateLike entropy c.next).mapError .error)
  rotateWithNextAndThreshold newNext c.nextThreshold

def rotateAppointing (entropy : ℕ → Option Hash) (witnesses : List Did) (threshold : UInt32) :
    InPlace Controller Fault Unit := do
  let c ← get
  let newNext ← check ((generateLike entropy c.next).mapError .error)
  let establishment :=
    establishing c.next c.nextThreshold newNext c.nextThreshold witnesses threshold
  check ((validateEstablishment establishment).mapError .error)
  append (.rotation establishment) c.next
  modify fun c' => { c' with
    current := c.next
    currentThreshold := c.nextThreshold
    next := newNext }
  return ()

def appointWitnesses (entropy : ℕ → Option Hash) (witnesses : List Did) (threshold : UInt32) :
    InPlace Controller Fault Unit :=
  rotateAppointing entropy witnesses threshold

def retireWitnesses (entropy : ℕ → Option Hash) : InPlace Controller Fault Unit :=
  rotateAppointing entropy [] 0

def interact (anchors : List Hash) : InPlace Controller Fault Unit := do
  check (failIf (maxAnchors < anchors.length)
    (.error (.tooManyItems "anchors" maxAnchors anchors.length)))
  let c ← get
  append (.interaction anchors) c.current

/-- Append a seal event. Its devices must parse. -/
def sealAll (seals : List Seal) : InPlace Controller Fault Unit := do
  check (failIf (maxSeals < seals.length) (.error (.tooManyItems "seals" maxSeals seals.length)))
  check (seals.forM fun s => ((Did.parse s.device).map fun _ => ()).mapError .error)
  let c ← get
  append (.seal seals) c.current

def delegateDevice (device : Did) (capabilities : Capabilities) : InPlace Controller Fault Unit :=
  sealAll [.delegate device.asStr capabilities]

def revokeDevice (device : Did) : InPlace Controller Fault Unit :=
  sealAll [.revoke device.asStr]

/-- The revocations of all devices but those in `keep`. -/
def toRevoke (c : Controller) (keep : List Did) : List Seal :=
  (c.kel.delegatedDevices.filter fun entry =>
    ¬ keep.any fun k => k.asStr = entry.1.asStr).map fun entry => .revoke entry.1.asStr

/-- Revoke all devices but those in `keep`, in as many events as it takes. -/
def revokeDevicesExcept (keep : List Did) : InPlace Controller Fault Unit := do
  let c ← get
  (chunks maxSeals (c.toRevoke keep)).forM sealAll

/-! ### Coming back to an identity -/

/-- Whether secret keys are the ones of a list of public keys. -/
def matchKeys (signers : List SigningKey) (keys : List VerifyingKey) : Prop :=
  signers.length = keys.length ∧
    (signers.zip keys).all (fun (k, expected) => decide (k.verifyingKey = expected)) = true

/-- Whether secret keys are the ones that are committed to. -/
def matchCommitments (signers : List SigningKey) (commitments : List Bytes) : Prop :=
  signers.length = commitments.length ∧
    (signers.zip commitments).all
      (fun (k, commitment) => decide (keyCommitment k.verifyingKey = commitment)) = true

instance (signers : List SigningKey) (keys : List VerifyingKey) :
    Decidable (matchKeys signers keys) :=
  inferInstanceAs (Decidable (_ ∧ _))

instance (signers : List SigningKey) (commitments : List Bytes) :
    Decidable (matchCommitments signers commitments) :=
  inferInstanceAs (Decidable (_ ∧ _))

/-- The controller that a call leaves when it succeeds. -/
def after (call : InPlace Controller Fault Unit) (c : Controller) : Except Fault Controller :=
  match call.on c with
  | (.ok _, c')   => .ok c'
  | (.error f, _) => .error f

/-- Take control with the keys that were committed to, by a rotation to them. -/
def recoverFromKel (kel : Kel) (recoveredNext newNext : List SigningKey)
    (newNextThreshold : UInt32) : Except Fault Controller := do
  let first ← okOr recoveredNext.head? (.error .emptyKeySet)
  failIf (newNext = []) (.error .emptyKeySet)
  let state ← kel.verify.mapError .error
  failIf (¬ matchCommitments recoveredNext state.nextCommitments) (.error .recoveryKeysMismatch)
  let ctrl : Controller := ⟨kel.scid, first.suite, recoveredNext, state.nextThreshold, newNext,
    newNextThreshold, kel.delegator, kel.events⟩
  let establishment := establishing recoveredNext state.nextThreshold newNext newNextThreshold [] 0
  (validateEstablishment establishment).mapError .error
  let ctrl ← after (append (.rotation establishment) recoveredNext) ctrl
  let _ ← ctrl.kel.verify.mapError .error
  return ctrl

/-- Resume with the keys that were in control, and those committed to, when the log was saved. -/
def restore (kel : Kel) (current next : List SigningKey) : Except Fault Controller := do
  let first ← okOr current.head? (.error .emptyKeySet)
  failIf (next = []) (.error .emptyKeySet)
  let state ← kel.verify.mapError .error
  failIf (¬ matchKeys current state.keys) (.error .restoreKeysMismatch)
  failIf (¬ matchCommitments next state.nextCommitments) (.error .restoreKeysMismatch)
  return ⟨kel.scid, first.suite, current, state.threshold, next, state.nextThreshold,
    kel.delegator, kel.events⟩

/-- The calls on a controller. -/
inductive Call where
  | rotate (entropy : ℕ → Option Hash)
  | rotateWithNext (newNext : List SigningKey)
  | rotateWithNextAndThreshold (newNext : List SigningKey) (newNextThreshold : UInt32)
  | appointWitnesses (entropy : ℕ → Option Hash) (witnesses : List Did) (threshold : UInt32)
  | retireWitnesses (entropy : ℕ → Option Hash)
  | interact (anchors : List Hash)
  | sealAll (seals : List Seal)
  | delegateDevice (device : Did) (capabilities : Capabilities)
  | revokeDevice (device : Did)
  | revokeDevicesExcept (keep : List Did)

def Call.perform : Call → InPlace Controller Fault Unit
  | .rotate entropy                         => Controller.rotate entropy
  | .rotateWithNext newNext                 => Controller.rotateWithNext newNext
  | .rotateWithNextAndThreshold newNext t   => Controller.rotateWithNextAndThreshold newNext t
  | .appointWitnesses entropy witnesses t   => Controller.appointWitnesses entropy witnesses t
  | .retireWitnesses entropy                => Controller.retireWitnesses entropy
  | .interact anchors                       => Controller.interact anchors
  | .sealAll seals                          => Controller.sealAll seals
  | .delegateDevice device capabilities     => Controller.delegateDevice device capabilities
  | .revokeDevice device                    => Controller.revokeDevice device
  | .revokeDevicesExcept keep               => Controller.revokeDevicesExcept keep

/-! ### What a call does -/

variable {signers : List SigningKey} {call : InPlace Controller Fault Unit} {c c' : Controller}
  {kind : EventKind} {r : Except Fault Unit} {Kind : EventKind → Prop} {f : Fault}

lemma matchKeys_iff {keys : List VerifyingKey} :
    matchKeys signers keys ↔ signers.map SigningKey.verifyingKey = keys :=
  zip_all_eq_iff

lemma matchCommitments_iff {commitments : List Bytes} : matchCommitments signers commitments ↔
      (signers.map fun k => keyCommitment k.verifyingKey) = commitments :=
  zip_all_eq_iff (f := fun k : SigningKey => keyCommitment k.verifyingKey)

omit [KeyPrimitives] in
lemma after_ok : after call c = .ok c' ↔ call.on c = (.ok (), c') := by
  unfold after
  split
  next u mid hcall =>
    rw [hcall]
    simp
  next f mid hcall =>
    rw [hcall]
    simp

/-- `ev` is the event of this kind that comes next, signed by `signers`. -/
def Builds (c : Controller) (kind : EventKind) (signers : List SigningKey) (ev : Event) : Prop :=
  ∃ last, c.events.getLast? = some last ∧
    signEvent ⟨c.suite, c.scid, UInt64.ofNat c.events.length, last.digest, kind, []⟩ signers =
      .ok ev

/-- Appending one event of a kind. -/
inductive Move (c : Controller) : EventKind → Controller → Prop
  | rotation {newNext : List SigningKey} {newNextThreshold : UInt32} {witnesses : List Did}
      {witnessThreshold : UInt32} {ev : Event}
      (valid : validateEstablishment (establishing c.next c.nextThreshold newNext newNextThreshold
        witnesses witnessThreshold) = .ok ())
      (built : c.Builds (.rotation (establishing c.next c.nextThreshold newNext newNextThreshold
        witnesses witnessThreshold)) c.next ev) :
      Move c (.rotation (establishing c.next c.nextThreshold newNext newNextThreshold witnesses
        witnessThreshold))
        { c with
          events := c.events ++ [ev]
          current := c.next
          currentThreshold := c.nextThreshold
          next := newNext
          nextThreshold := newNextThreshold }
  | interaction {anchors : List Hash} {ev : Event} (length_le : anchors.length ≤ maxAnchors)
      (built : c.Builds (.interaction anchors) c.current ev) :
      Move c (.interaction anchors) { c with events := c.events ++ [ev] }
  | sealed {seals : List Seal} {ev : Event} (length_le : seals.length ≤ maxSeals)
      (devices : ∀ s ∈ seals, ∃ d, Did.parse s.device = .ok d)
      (built : c.Builds (.seal seals) c.current ev) :
      Move c (.seal seals) { c with events := c.events ++ [ev] }

/-- A chain of moves, with the kinds of the events appended. -/
inductive Moves : Controller → List EventKind → Controller → Prop
  | refl (c : Controller) : Moves c [] c
  | step {c mid c' : Controller} {kind : EventKind} {kinds : List EventKind}
      (first : Move c kind mid) (rest : Moves mid kinds c') : Moves c (kind :: kinds) c'

lemma Moves.single (h : Move c kind c') : Moves c [kind] c' :=
  .step h (.refl c')

/-- What every move keeps, a chain of moves keeps. -/
lemma Moves.invariant {P : Controller → Prop} {kinds : List EventKind} (h : Moves c kinds c')
    (hstep : ∀ c kind c', P c → Move c kind c' → P c') (hc : P c) : P c' := by
  induction h with
  | refl c => exact hc
  | step first rest ih => exact ih (hstep _ _ _ hc first)

lemma append_on (h : (append kind signers).on c = (r, c')) : (r = .error .panic ∧ c' = c) ∨
      r = .ok () ∧ ∃ ev, c.Builds kind signers ev ∧ c' = { c with events := c.events ++ [ev] } := by
  rw [append, on_get_bind] at h
  rcases on_check_bind.mp h with ⟨f, hlast, rfl, rfl⟩ | ⟨last, hlast, h⟩
  · exact .inl ⟨by rw [(okOr_error.mp hlast).2], rfl⟩
  rcases on_check_bind.mp h with ⟨f, hsign, rfl, rfl⟩ | ⟨ev, hsign, h⟩
  · refine .inl ⟨?_, rfl⟩
    rcases bind_error.mp hsign with hsign | ⟨_, -, hsign⟩
    · rw [(okOr_error.mp hsign).2]
    · cases hsign
  · rw [on_modify_bind, on_pure] at h
    cases h
    exact .inr ⟨rfl, ev, ⟨last, okOr_ok.mp hlast, hsign⟩, rfl⟩

/-- Appending an event and then updating the keys. -/
lemma append_modify_on {f : Controller → Controller}
    (h : (append kind signers >>= fun _ => modify f >>= fun _ => pure ()).on c = (r, c')) :
    (r = .error .panic ∧ c' = c) ∨ r = .ok () ∧
      ∃ ev, c.Builds kind signers ev ∧ c' = f { c with events := c.events ++ [ev] } := by
  rw [on_bind] at h
  cases happend : (append kind signers).on c with
  | mk out mid =>
    rw [happend] at h
    rcases append_on happend with ⟨rfl, rfl⟩ | ⟨rfl, ev, hbuilt, rfl⟩
    · cases h
      exact .inl ⟨rfl, rfl⟩
    · cases h
      exact .inr ⟨rfl, ev, hbuilt, rfl⟩

/-- A call either fails and changes nothing or makes one move. -/
def MovesOnce (call : InPlace Controller Fault Unit) (c : Controller)
    (Kind : EventKind → Prop) : Prop :=
  ∀ r c', call.on c = (r, c') →
    (∃ f, r = .error f ∧ c' = c) ∨ r = .ok () ∧ ∃ kind, Kind kind ∧ Move c kind c'

lemma rotateWithNextAndThreshold_movesOnce (c : Controller) (newNext : List SigningKey)
    (newNextThreshold : UInt32) :
    MovesOnce (rotateWithNextAndThreshold newNext newNextThreshold) c fun kind =>
      kind = .rotation (establishing c.next c.nextThreshold newNext newNextThreshold [] 0) := by
  intro r c' h
  rw [rotateWithNextAndThreshold, on_get_bind] at h
  rcases on_check_bind.mp h with ⟨f, -, rfl, rfl⟩ | ⟨⟨⟩, -, h⟩
  · exact .inl ⟨f, rfl, rfl⟩
  rcases on_check_bind.mp h with ⟨f, -, rfl, rfl⟩ | ⟨⟨⟩, hvalid, h⟩
  · exact .inl ⟨f, rfl, rfl⟩
  rcases append_modify_on h with ⟨rfl, rfl⟩ | ⟨rfl, ev, hbuilt, rfl⟩
  · exact .inl ⟨_, rfl, rfl⟩
  · exact .inr ⟨rfl, _, rfl, .rotation (mapError_ok.mp hvalid) hbuilt⟩

lemma rotateWithNext_movesOnce (c : Controller) (newNext : List SigningKey) :
    MovesOnce (rotateWithNext newNext) c fun kind =>
      kind = .rotation (establishing c.next c.nextThreshold newNext c.nextThreshold [] 0) := by
  intro r c' h
  rw [rotateWithNext, on_get_bind] at h
  exact rotateWithNextAndThreshold_movesOnce c newNext c.nextThreshold r c' h

lemma rotate_movesOnce (c : Controller) (entropy : ℕ → Option Hash) :
    MovesOnce (rotate entropy) c fun kind => ∃ newNext,
      kind = .rotation (establishing c.next c.nextThreshold newNext c.nextThreshold [] 0) := by
  intro r c' h
  rw [rotate, on_get_bind] at h
  rcases on_check_bind.mp h with ⟨f, -, rfl, rfl⟩ | ⟨newNext, -, h⟩
  · exact .inl ⟨f, rfl, rfl⟩
  rcases rotateWithNextAndThreshold_movesOnce c newNext c.nextThreshold r c' h with
    h | ⟨hr, kind, hkind, hmove⟩
  · exact .inl h
  · exact .inr ⟨hr, kind, ⟨newNext, hkind⟩, hmove⟩

lemma rotateAppointing_movesOnce (c : Controller) (entropy : ℕ → Option Hash)
    (witnesses : List Did) (threshold : UInt32) :
    MovesOnce (rotateAppointing entropy witnesses threshold) c fun kind => ∃ newNext,
      kind = .rotation
        (establishing c.next c.nextThreshold newNext c.nextThreshold witnesses threshold) := by
  intro r c' h
  rw [rotateAppointing, on_get_bind] at h
  rcases on_check_bind.mp h with ⟨f, -, rfl, rfl⟩ | ⟨newNext, -, h⟩
  · exact .inl ⟨f, rfl, rfl⟩
  rcases on_check_bind.mp h with ⟨f, -, rfl, rfl⟩ | ⟨⟨⟩, hvalid, h⟩
  · exact .inl ⟨f, rfl, rfl⟩
  rcases append_modify_on h with ⟨rfl, rfl⟩ | ⟨rfl, ev, hbuilt, rfl⟩
  · exact .inl ⟨_, rfl, rfl⟩
  · exact .inr ⟨rfl, _, ⟨newNext, rfl⟩, .rotation (mapError_ok.mp hvalid) hbuilt⟩

lemma interact_movesOnce (c : Controller) (anchors : List Hash) :
    MovesOnce (interact anchors) c fun kind => kind = .interaction anchors := by
  intro r c' h
  rcases on_check_bind.mp h with ⟨f, -, rfl, rfl⟩ | ⟨⟨⟩, hlength, h⟩
  · exact .inl ⟨f, rfl, rfl⟩
  rw [on_get_bind] at h
  rcases append_on h with ⟨rfl, rfl⟩ | ⟨rfl, ev, hbuilt, rfl⟩
  · exact .inl ⟨_, rfl, rfl⟩
  · exact .inr ⟨rfl, _, rfl, .interaction (not_lt.mp (failIf_ok.mp hlength)) hbuilt⟩

lemma sealAll_movesOnce (c : Controller) (seals : List Seal) :
    MovesOnce (sealAll seals) c fun kind => kind = .seal seals := by
  intro r c' h
  rcases on_check_bind.mp h with ⟨f, -, rfl, rfl⟩ | ⟨⟨⟩, hlength, h⟩
  · exact .inl ⟨f, rfl, rfl⟩
  rcases on_check_bind.mp h with ⟨f, -, rfl, rfl⟩ | ⟨⟨⟩, hdevices, h⟩
  · exact .inl ⟨f, rfl, rfl⟩
  rw [on_get_bind] at h
  rcases append_on h with ⟨rfl, rfl⟩ | ⟨rfl, ev, hbuilt, rfl⟩
  · exact .inl ⟨_, rfl, rfl⟩
  · refine .inr ⟨rfl, _, rfl, .sealed (not_lt.mp (failIf_ok.mp hlength)) ?_ hbuilt⟩
    intro s hs
    obtain ⟨d, hd, -⟩ := map_ok.mp (mapError_ok.mp (forM_ok.mp hdevices s hs))
    exact ⟨d, hd⟩

/-- Sealing in pieces appends the pieces in order, all of them unless it fails. -/
lemma forM_sealAll_on {pieces : List (List Seal)} (h : (pieces.forM sealAll).on c = (r, c')) :
    ∃ kinds, Moves c kinds c' ∧ (r = .ok () → kinds = pieces.map .seal) := by
  induction pieces generalizing c with
  | nil =>
    cases h
    exact ⟨[], .refl _, fun _ => rfl⟩
  | cons piece pieces ih =>
    change (sealAll piece >>= fun _ => pieces.forM sealAll).on c = _ at h
    rw [on_bind] at h
    cases hfirst : (sealAll piece).on c with
    | mk out mid =>
      rw [hfirst] at h
      rcases sealAll_movesOnce c piece out mid hfirst with ⟨f, rfl, rfl⟩ | ⟨rfl, kind, rfl, hmove⟩
      · cases h
        exact ⟨[], .refl _, nofun⟩
      · obtain ⟨kinds, hmoves, hkinds⟩ := ih h
        exact ⟨_, .step hmove hmoves, fun hr => by rw [hkinds hr, List.map_cons]⟩

/-- The kinds of the events that a successful call appends. -/
def Call.Appends (c : Controller) : Call → List EventKind → Prop
  | .rotate _, kinds => ∃ newNext, kinds =
    [.rotation (establishing c.next c.nextThreshold newNext c.nextThreshold [] 0)]
  | .rotateWithNext newNext, kinds => kinds =
    [.rotation (establishing c.next c.nextThreshold newNext c.nextThreshold [] 0)]
  | .rotateWithNextAndThreshold newNext t, kinds => kinds =
    [.rotation (establishing c.next c.nextThreshold newNext t [] 0)]
  | .appointWitnesses _ witnesses t, kinds => ∃ newNext, kinds =
    [.rotation (establishing c.next c.nextThreshold newNext c.nextThreshold witnesses t)]
  | .retireWitnesses _, kinds => ∃ newNext, kinds =
    [.rotation (establishing c.next c.nextThreshold newNext c.nextThreshold [] 0)]
  | .interact anchors, kinds => kinds = [.interaction anchors]
  | .sealAll seals, kinds => kinds = [.seal seals]
  | .delegateDevice device capabilities, kinds => kinds =
    [.seal [.delegate device.asStr capabilities]]
  | .revokeDevice device, kinds => kinds = [.seal [.revoke device.asStr]]
  | .revokeDevicesExcept keep, kinds => kinds = (chunks maxSeals (c.toRevoke keep)).map .seal

lemma MovesOnce.ok (h : MovesOnce call c Kind)
    (hcall : call.on c = (.ok (), c')) : ∃ kind, Kind kind ∧ Moves c [kind] c' := by
  rcases h _ _ hcall with ⟨f, hf, -⟩ | ⟨-, kind, hkind, hmove⟩
  · cases hf
  · exact ⟨kind, hkind, .single hmove⟩

lemma MovesOnce.error (h : MovesOnce call c Kind)
    (hcall : call.on c = (.error f, c')) : c' = c := by
  rcases h _ _ hcall with ⟨f, -, hc⟩ | ⟨hr, -⟩
  · exact hc
  · cases hr

/-- What a call that succeeds does. -/
lemma Call.perform_ok {call : Call} (h : call.perform.on c = (.ok (), c')) :
    ∃ kinds, call.Appends c kinds ∧ Moves c kinds c' := by
  cases call with
  | rotate entropy =>
    obtain ⟨kind, ⟨newNext, rfl⟩, hmoves⟩ := (rotate_movesOnce c entropy).ok h
    exact ⟨_, ⟨newNext, rfl⟩, hmoves⟩
  | rotateWithNext newNext =>
    obtain ⟨kind, rfl, hmoves⟩ := (rotateWithNext_movesOnce c newNext).ok h
    exact ⟨_, rfl, hmoves⟩
  | rotateWithNextAndThreshold newNext t =>
    obtain ⟨kind, rfl, hmoves⟩ := (rotateWithNextAndThreshold_movesOnce c newNext t).ok h
    exact ⟨_, rfl, hmoves⟩
  | appointWitnesses entropy witnesses t =>
    obtain ⟨kind, ⟨newNext, rfl⟩, hmoves⟩ := (rotateAppointing_movesOnce c entropy witnesses t).ok h
    exact ⟨_, ⟨newNext, rfl⟩, hmoves⟩
  | retireWitnesses entropy =>
    obtain ⟨kind, ⟨newNext, rfl⟩, hmoves⟩ := (rotateAppointing_movesOnce c entropy [] 0).ok h
    exact ⟨_, ⟨newNext, rfl⟩, hmoves⟩
  | interact anchors =>
    obtain ⟨kind, rfl, hmoves⟩ := (interact_movesOnce c anchors).ok h
    exact ⟨_, rfl, hmoves⟩
  | sealAll seals =>
    obtain ⟨kind, rfl, hmoves⟩ := (sealAll_movesOnce c seals).ok h
    exact ⟨_, rfl, hmoves⟩
  | delegateDevice device capabilities =>
    obtain ⟨kind, rfl, hmoves⟩ := (sealAll_movesOnce c _).ok h
    exact ⟨_, rfl, hmoves⟩
  | revokeDevice device =>
    obtain ⟨kind, rfl, hmoves⟩ := (sealAll_movesOnce c _).ok h
    exact ⟨_, rfl, hmoves⟩
  | revokeDevicesExcept keep =>
    obtain ⟨kinds, hmoves, hkinds⟩ := forM_sealAll_on h
    exact ⟨kinds, hkinds rfl, hmoves⟩

/-- A call that fails leaves the controller as it was, but for events already sealed. -/
lemma Call.perform_error {call : Call} (h : call.perform.on c = (.error f, c'))
    (hcall : ∀ keep, call ≠ .revokeDevicesExcept keep) : c' = c := by
  cases call with
  | rotate entropy => exact (rotate_movesOnce c entropy).error h
  | rotateWithNext newNext => exact (rotateWithNext_movesOnce c newNext).error h
  | rotateWithNextAndThreshold newNext t =>
    exact (rotateWithNextAndThreshold_movesOnce c newNext t).error h
  | appointWitnesses entropy witnesses t =>
    exact (rotateAppointing_movesOnce c entropy witnesses t).error h
  | retireWitnesses entropy => exact (rotateAppointing_movesOnce c entropy [] 0).error h
  | interact anchors => exact (interact_movesOnce c anchors).error h
  | sealAll seals => exact (sealAll_movesOnce c seals).error h
  | delegateDevice device capabilities
  | revokeDevice device => exact (sealAll_movesOnce c _).error h
  | revokeDevicesExcept keep => exact absurd rfl (hcall keep)

end Controller

end Mininet.Identity

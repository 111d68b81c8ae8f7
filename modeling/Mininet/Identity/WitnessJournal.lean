import Mininet.Identity.Witness
import Mininet.Lib.Stateful

/-!
# The journal of a witness

What a witness retains of each identity, and the calls that sign receipts: observing an event, which
moves the retained head, and certifying a change of the witness policy, which signs a successor of
the head without moving it. `Observed` and `Certifies` say what the two can do; in a run that never
passes the last sequence number, the witness signs one event for each place in a log.
-/

namespace Mininet.Identity

open Codec Fallible Stateful

def Did.fromScid [Primitives] (scid : String) : Except IdentityError Did := do
  (Primitives.validateScid scid).mapError .crypto
  return ⟨scid⟩

lemma Did.fromScid_ok [Primitives] {scid : String} {did : Did} :
    Did.fromScid scid = .ok did ↔ Primitives.validateScid scid = .ok () ∧ did = ⟨scid⟩ := by
  rw [fromScid, bind_ok]
  constructor
  · rintro ⟨⟨⟩, hvalid, h⟩
    cases h
    exact ⟨mapError_ok.mp hvalid, rfl⟩
  · rintro ⟨hvalid, rfl⟩
    exact ⟨(), mapError_ok.mpr hvalid, rfl⟩

/-! ### The journal -/

structure WitnessIdentityState where
  identity : Did
  acceptedSequence : UInt64
  acceptedEventDigest : Bytes
  witnessPolicyGeneration : UInt64
  acceptedEvent : Event
  issuedReceipt : WitnessReceipt
  acceptedPolicy : WitnessPolicy

/-- What a certification reserves the successor for. -/
structure TransitionKey where
  identity : Did
  predecessorDigest : Bytes
  retiringGeneration : UInt64
  deriving DecidableEq

structure WitnessJournal where
  states : Did → Option WitnessIdentityState
  transitionCertifications : TransitionKey → Option Bytes

/-- Proof that the controller of an identity signed two events for one place. -/
structure ControllerDuplicityProof where
  identity : Did
  sequence : UInt64
  eventA : Event
  eventB : Event
  deriving DecidableEq

def ControllerDuplicityProof.assemble [Primitives] (identity : Did) (eventA eventB : Event) :
    Except IdentityError ControllerDuplicityProof := do
  failIf (eventA.scid ≠ identity.scid ∨ eventB.scid ≠ identity.scid ∨ eventA.sn ≠ eventB.sn ∨
    eventA.digest = eventB.digest) .controllerDuplicityMismatch
  return ⟨identity, eventA.sn, eventA, eventB⟩

inductive WitnessObservation where
  | accepted (receipt : WitnessReceipt)
  | alreadyAccepted (receipt : WitnessReceipt)
  | stale (acceptedSequence : UInt64)
  | controllerDuplicity (proof : ControllerDuplicityProof)

def WitnessObservation.receipt? : WitnessObservation → Option WitnessReceipt
  | .accepted receipt        => some receipt
  | .alreadyAccepted receipt => some receipt
  | _                        => none

/-- Proof that a witness signed two events for one place. -/
structure WitnessEquivocationProof where
  witnessId : WitnessId
  receiptA : WitnessReceipt
  receiptB : WitnessReceipt
  deriving DecidableEq

def WitnessEquivocationProof.assemble (receiptA receiptB : WitnessReceipt) :
    Except IdentityError WitnessEquivocationProof := do
  let a := receiptA.statement
  let b := receiptB.statement
  failIf (a.witnessId ≠ b.witnessId ∨ a.identity ≠ b.identity ∨ a.sequence ≠ b.sequence ∨
    a.witnessPolicyGeneration ≠ b.witnessPolicyGeneration ∨ a.eventDigest = b.eventDigest)
    .witnessEquivocationMismatch
  return ⟨a.witnessId, receiptA, receiptB⟩

/-- Whether two lists of witnesses are the same up to their order. -/
def sameWitnessSet (a b : List WitnessId) : Prop :=
  a.length = b.length ∧
    a.mergeSort (fun x y => x.asStr ≤ y.asStr) = b.mergeSort (fun x y => x.asStr ≤ y.asStr)

instance (a b : List WitnessId) : Decidable (sameWitnessSet a b) :=
  inferInstanceAs (Decidable (_ ∧ _))

/-- Whether a policy differs from the one before in its members or threshold. -/
def isPolicyChange (old : WitnessPolicy) : Option WitnessPolicy → Prop
  | none     => True
  | some new => old.threshold ≠ new.threshold ∨ ¬ sameWitnessSet old.witnesses new.witnesses

instance (old : WitnessPolicy) : ∀ new : Option WitnessPolicy, Decidable (isPolicyChange old new)
  | none   => inferInstanceAs (Decidable True)
  | some _ => inferInstanceAs (Decidable (_ ∨ _))

namespace WitnessJournal

def new : WitnessJournal := ⟨fun _ => none, fun _ => none⟩

def stateFor (j : WitnessJournal) (identity : Did) : Option WitnessIdentityState :=
  j.states identity

variable {event : Event} {witnessId : WitnessId} {witnessKey : SigningKey} {observedEpoch : UInt64}
  {j j' : WitnessJournal} {f : Fault} {kel : Kel}

@[simp] lemma stateFor_new (identity : Did) : new.stateFor identity = none := rfl

def transitionCertification (j : WitnessJournal) (identity : Did) (predecessorDigest : Bytes)
    (retiringGeneration : UInt64) : Option Bytes :=
  j.transitionCertifications ⟨identity, predecessorDigest, retiringGeneration⟩

def recordTransitionCertification (identity : Did) (predecessorDigest : Bytes)
    (retiringGeneration : UInt64) (successorDigest : Bytes) (j : WitnessJournal) :
    WitnessJournal :=
  { j with
    transitionCertifications := Function.update j.transitionCertifications
      ⟨identity, predecessorDigest, retiringGeneration⟩ (some successorDigest) }

lemma transitionCertification_record (j : WitnessJournal) (identity d : Did)
    (predecessor p successor : Bytes) (generation g : UInt64) :
    (j.recordTransitionCertification identity predecessor generation
      successor).transitionCertification d p g =
      if d = identity ∧ p = predecessor ∧ g = generation then some successor
      else j.transitionCertification d p g := by
  refine (Function.update_apply _ _ _ _).trans (if_congr ?_ rfl rfl)
  rw [TransitionKey.mk.injEq]

inductive Decision where
  | accept
  | duplicate (receipt : WitnessReceipt)
  | stale (acceptedSequence : UInt64)
  | conflict (acceptedEvent : Event)
  | conflictingDescendant

section

variable [Primitives]

/-- What an event is next to what is retained of its identity. The sum may wrap. -/
def decision (event : Event) : Option WitnessIdentityState → Decision
  | none       => .accept
  | some state =>
    if event.sn = state.acceptedSequence ∧ event.digest = state.acceptedEventDigest then
      .duplicate state.issuedReceipt
    else if event.sn = state.acceptedSequence + 1 ∧ event.prior = state.acceptedEventDigest then
      .accept
    else if event.sn < state.acceptedSequence then
      .stale state.acceptedSequence
    else if event.sn = state.acceptedSequence ∧ event.digest ≠ state.acceptedEventDigest then
      .conflict state.acceptedEvent
    else .conflictingDescendant

/-- What a receipt says about an event. -/
def receiptStatement (identity : Did) (event : Event) (generation : UInt64) (witnessId : WitnessId)
    (observedEpoch : UInt64) : WitnessReceiptStatement where
  identity := identity
  sequence := event.sn
  eventDigest := event.digest
  priorEventDigest := if event.prior = [] then none else some event.prior
  eventKind := event.kind.keyEventKind
  witnessPolicyGeneration := generation
  witnessId := witnessId
  observedEpoch := observedEpoch

/-- The journal with an event as the head of an identity. -/
def accept (identity : Did) (event : Event) (policy : WitnessPolicy) (receipt : WitnessReceipt)
    (j : WitnessJournal) : WitnessJournal :=
  { j with
    states := Function.update j.states identity
      (some ⟨identity, event.sn, event.digest, policy.generation, event, receipt, policy⟩) }

lemma stateFor_accept_self (identity : Did) (event : Event) (policy : WitnessPolicy)
    (receipt : WitnessReceipt) (j : WitnessJournal) :
    (j.accept identity event policy receipt).stateFor identity =
      some ⟨identity, event.sn, event.digest, policy.generation, event, receipt, policy⟩ :=
  Function.update_self _ _ _

lemma stateFor_accept_of_ne {identity d : Did} (hne : d ≠ identity) (event : Event)
    (policy : WitnessPolicy) (receipt : WitnessReceipt) (j : WitnessJournal) :
    (j.accept identity event policy receipt).stateFor d = j.stateFor d :=
  Function.update_of_ne hne _ _

/-- No other successor may be certified already. -/
def checkReserved (certified : Option Bytes) (digest : Bytes) : Except IdentityError Unit :=
  failIf (certified.any fun c => decide (c ≠ digest)) .conflictingPolicyTransitionCertification

end

variable [KeyPrimitives] {policy : WitnessPolicy} {o : WitnessObservation}

def observe (event : Event) (policy : WitnessPolicy) (witnessId : WitnessId)
    (witnessKey : SigningKey) (observedEpoch : UInt64) :
    InPlace WitnessJournal Fault WitnessObservation := do
  check (failIf (¬ policy.contains witnessId) (.error .witnessNotInPolicy))
  let identity ← check ((Did.fromScid event.scid).mapError .error)
  let j ← get
  match decision event (j.stateFor identity) with
  | .duplicate receipt      => return .alreadyAccepted receipt
  | .stale acceptedSequence => return .stale acceptedSequence
  | .conflict acceptedEvent =>
    let proof ← check ((ControllerDuplicityProof.assemble identity acceptedEvent event).mapError
      .error)
    return .controllerDuplicity proof
  | .conflictingDescendant  => throw (.error (.witnessConflictingDescendant event.sn))
  | .accept                 =>
    let certified := (j.stateFor identity).bind fun previous =>
      j.transitionCertification identity event.prior previous.acceptedPolicy.generation
    check ((checkReserved certified event.digest).mapError .error)
    let receipt ← check (signWitnessReceipt
      (receiptStatement identity event policy.generation witnessId observedEpoch) witnessKey)
    modify (accept identity event policy receipt)
    return .accepted receipt

def observeVerified (kel : Kel) (policy : WitnessPolicy) (witnessId : WitnessId)
    (witnessKey : SigningKey) (observedEpoch : UInt64) :
    InPlace WitnessJournal Fault WitnessObservation := do
  let _ ← check (kel.verify.mapError .error)
  let event ← check (okOr kel.events.getLast? (.error .emptyKel))
  observe event policy witnessId witnessKey observedEpoch

def observeDeclared (kel : Kel) (witnessId : WitnessId) (witnessKey : SigningKey)
    (observedEpoch : UInt64) : InPlace WitnessJournal Fault WitnessObservation := do
  let _ ← check (kel.verify.mapError .error)
  let policy ← check (okOr kel.declaredWitnessPolicy (.error .noWitnessPolicyDeclared))
  let event ← check (okOr kel.events.getLast? (.error .emptyKel))
  observe event policy witnessId witnessKey observedEpoch

def certifyPolicyTransition (kel : Kel) (witnessId : WitnessId) (witnessKey : SigningKey)
    (observedEpoch : UInt64) : InPlace WitnessJournal Fault WitnessReceipt := do
  let _ ← check (kel.verify.mapError .error)
  let identity := kel.did
  let j ← get
  let oldState ← check (okOr (j.stateFor identity) (.error .noRetainedWitnessState))
  let event ← check (okOr kel.events.getLast? (.error .emptyKel))
  check (failIf (event.sn ≠ oldState.acceptedSequence + 1 ∨
    event.prior ≠ oldState.acceptedEventDigest) (.error (.witnessConflictingDescendant event.sn)))
  let oldPolicy := oldState.acceptedPolicy
  check (failIf (¬ oldPolicy.contains witnessId) (.error .witnessNotInPolicy))
  check (failIf (¬ isPolicyChange oldPolicy kel.declaredWitnessPolicy)
    (.error .notAWitnessPolicyChange))
  check ((checkReserved (j.transitionCertification identity event.prior oldPolicy.generation)
    event.digest).mapError .error)
  let receipt ← check (signWitnessReceipt
    (receiptStatement identity event oldPolicy.generation witnessId observedEpoch) witnessKey)
  modify (recordTransitionCertification identity event.prior oldPolicy.generation event.digest)
  return receipt

/-! ### What a call can do -/

/-- An observation that succeeds, and the journal it leaves. -/
inductive Observed (j : WitnessJournal) (event : Event) (policy : WitnessPolicy)
    (witnessId : WitnessId) (witnessKey : SigningKey) (observedEpoch : UInt64) :
    WitnessObservation → WitnessJournal → Prop
  | alreadyAccepted {state : WitnessIdentityState}
      (retained : j.stateFor ⟨event.scid⟩ = some state)
      (sn_eq : event.sn = state.acceptedSequence)
      (digest_eq : event.digest = state.acceptedEventDigest) :
      Observed j event policy witnessId witnessKey observedEpoch
        (.alreadyAccepted state.issuedReceipt) j
  | stale {state : WitnessIdentityState} (retained : j.stateFor ⟨event.scid⟩ = some state)
      (sn_lt : event.sn < state.acceptedSequence)
      (unrelated : ¬ (event.sn = state.acceptedSequence + 1 ∧
        event.prior = state.acceptedEventDigest)) :
      Observed j event policy witnessId witnessKey observedEpoch (.stale state.acceptedSequence) j
  | controllerDuplicity {state : WitnessIdentityState} {proof : ControllerDuplicityProof}
      (retained : j.stateFor ⟨event.scid⟩ = some state)
      (sn_eq : event.sn = state.acceptedSequence)
      (digest_ne : event.digest ≠ state.acceptedEventDigest)
      (assembled : ControllerDuplicityProof.assemble ⟨event.scid⟩ state.acceptedEvent event =
        .ok proof) :
      Observed j event policy witnessId witnessKey observedEpoch (.controllerDuplicity proof) j
  | accepted {receipt : WitnessReceipt}
      (follows : ∀ state, j.stateFor ⟨event.scid⟩ = some state →
        event.sn = state.acceptedSequence + 1 ∧ event.prior = state.acceptedEventDigest ∧
        ∀ c, j.transitionCertification ⟨event.scid⟩ event.prior state.acceptedPolicy.generation =
          some c → c = event.digest)
      (signed : signWitnessReceipt (receiptStatement ⟨event.scid⟩ event policy.generation witnessId
        observedEpoch) witnessKey = .ok receipt) :
      Observed j event policy witnessId witnessKey observedEpoch (.accepted receipt)
        (j.accept ⟨event.scid⟩ event policy receipt)

omit [KeyPrimitives] in
lemma checkReserved_ok {certified : Option Bytes} {digest : Bytes} :
    checkReserved certified digest = .ok () ↔ ∀ c, certified = some c → c = digest := by
  cases certified <;> simp [checkReserved, failIf_ok]

/-- An observation that fails leaves the journal alone. -/
lemma observe_on_error
    (h : (observe event policy witnessId witnessKey observedEpoch).on j = (.error f, j')) :
    j' = j := by
  rw [observe] at h
  obtain ⟨-, -, -, hj⟩ | ⟨-, -, h⟩ := on_check_bind.mp h
  · exact hj
  obtain ⟨-, -, -, hj⟩ | ⟨identity, -, h⟩ := on_check_bind.mp h
  · exact hj
  rw [on_get_bind] at h
  split at h
  · cases h
  · cases h
  · obtain ⟨-, -, -, hj⟩ | ⟨proof, -, h⟩ := on_check_bind.mp h
    · exact hj
    · cases h
  · cases h
    rfl
  · obtain ⟨-, -, -, hj⟩ | ⟨-, -, h⟩ := on_check_bind.mp h
    · exact hj
    obtain ⟨-, -, -, hj⟩ | ⟨receipt, -, h⟩ := on_check_bind.mp h
    · exact hj
    · cases h

/-- Whether two events compete for a place: an accepted event's own successor is no other one. -/
lemma decision_eq_accept {state : Option WitnessIdentityState}
    (h : ∀ st, state = some st → event.sn = st.acceptedSequence + 1 ∧
      event.prior = st.acceptedEventDigest) :
    decision event state = .accept := by
  cases state with
  | none => rfl
  | some st =>
    obtain ⟨hsn, hprior⟩ := h st rfl
    have hne : event.sn ≠ st.acceptedSequence := by grind
    rw [decision, if_neg (fun hdup => hne hdup.1), if_pos ⟨hsn, hprior⟩]

/-- What a successful observation does. -/
lemma observe_on_ok :
    (observe event policy witnessId witnessKey observedEpoch).on j = (.ok o, j') ↔
      witnessId ∈ policy.witnesses ∧ Primitives.validateScid event.scid = .ok () ∧
      Observed j event policy witnessId witnessKey observedEpoch o j' := by
  rw [observe, on_check_bind_ok]
  simp only [failIf_ok, on_check_bind_ok, mapError_ok, Did.fromScid_ok,
    WitnessPolicy.contains, decide_eq_true_eq, not_not, on_get_bind]
  constructor
  · rintro ⟨⟨⟩, hmem, -, ⟨hvalid, rfl⟩, h⟩
    refine ⟨hmem, hvalid, ?_⟩
    cases hstate : j.stateFor ⟨event.scid⟩ with
    | none =>
      simp only [hstate, decision, on_check_bind_ok, mapError_ok] at h
      obtain ⟨-, -, receipt, signed, h⟩ := h
      cases h
      exact .accepted (by simp [hstate]) signed
    | some state =>
      simp only [hstate, decision] at h
      split_ifs at h with hsame hnext hstale hconflict
      · cases h
        exact .alreadyAccepted hstate hsame.1 hsame.2
      · simp only [on_check_bind_ok, mapError_ok] at h
        obtain ⟨⟨⟩, hreserved, receipt, signed, h⟩ := h
        cases h
        refine .accepted (fun st hst => ?_) signed
        cases hstate.symm.trans hst
        exact ⟨hnext.1, hnext.2, checkReserved_ok.mp hreserved⟩
      · cases h
        exact .stale hstate hstale hnext
      · simp only [on_check_bind_ok, mapError_ok] at h
        obtain ⟨proof, assembled, h⟩ := h
        cases h
        exact .controllerDuplicity hstate hconflict.1 hconflict.2 assembled
      · cases h
  · rintro ⟨hmem, hvalid, h⟩
    refine ⟨(), hmem, _, ⟨hvalid, rfl⟩, ?_⟩
    cases h with
    | alreadyAccepted retained sn_eq digest_eq =>
      rw [retained, decision, if_pos ⟨sn_eq, digest_eq⟩]
      rfl
    | stale retained sn_lt unrelated =>
      rw [retained, decision, if_neg (fun h => UInt64.ne_of_lt sn_lt h.1), if_neg unrelated,
        if_pos sn_lt]
      rfl
    | @controllerDuplicity state proof retained sn_eq digest_ne assembled =>
      have hnext : ¬ (event.sn = state.acceptedSequence + 1 ∧
          event.prior = state.acceptedEventDigest) := by grind
      have hstale : ¬ event.sn < state.acceptedSequence := sn_eq ▸ UInt64.lt_irrefl _
      rw [retained, decision, if_neg (fun h => digest_ne h.2), if_neg hnext, if_neg hstale,
        if_pos ⟨sn_eq, digest_ne⟩]
      exact on_check_bind_ok.mpr ⟨proof, mapError_ok.mpr assembled, rfl⟩
    | @accepted receipt follows signed =>
      rw [decision_eq_accept fun st hst => ⟨(follows st hst).1, (follows st hst).2.1⟩]
      refine on_check_bind_ok.mpr ⟨(), mapError_ok.mpr (checkReserved_ok.mpr ?_),
        on_check_bind_ok.mpr ⟨receipt, signed, rfl⟩⟩
      intro c hc
      obtain ⟨st, hst, hcertified⟩ := Option.bind_eq_some_iff.mp hc
      exact (follows st hst).2.2 c hcertified

lemma observeDeclared_on_ok :
    (observeDeclared kel witnessId witnessKey observedEpoch).on j = (.ok o, j') ↔
      ∃ s policy event, kel.verify = .ok s ∧ kel.declaredWitnessPolicy = some policy ∧
        kel.events.getLast? = some event ∧
        (observe event policy witnessId witnessKey observedEpoch).on j = (.ok o, j') := by
  rw [observeDeclared]
  simp only [on_check_bind_ok, mapError_ok, okOr_ok]
  constructor
  · rintro ⟨s, hs, policy, hpolicy, event, hevent, h⟩
    exact ⟨s, policy, event, hs, hpolicy, hevent, h⟩
  · rintro ⟨s, policy, event, hs, hpolicy, hevent, h⟩
    exact ⟨s, hs, policy, hpolicy, event, hevent, h⟩

lemma observeDeclared_on_error
    (h : (observeDeclared kel witnessId witnessKey observedEpoch).on j = (.error f, j')) :
    j' = j := by
  obtain ⟨-, -, -, hj⟩ | ⟨-, -, h⟩ := on_check_bind.mp h
  · exact hj
  obtain ⟨-, -, -, hj⟩ | ⟨policy, -, h⟩ := on_check_bind.mp h
  · exact hj
  obtain ⟨-, -, -, hj⟩ | ⟨event, -, h⟩ := on_check_bind.mp h
  · exact hj
  · exact observe_on_error h

/-- A certification that succeeds. -/
structure Certifies (j : WitnessJournal) (kel : Kel) (witnessId : WitnessId)
    (witnessKey : SigningKey) (observedEpoch : UInt64) (event : Event)
    (state : WitnessIdentityState) (receipt : WitnessReceipt) : Prop where
  verified : ∃ s, kel.verify = .ok s
  last : kel.events.getLast? = some event
  retained : j.stateFor kel.did = some state
  sn_eq : event.sn = state.acceptedSequence + 1
  prior_eq : event.prior = state.acceptedEventDigest
  member : witnessId ∈ state.acceptedPolicy.witnesses
  change : isPolicyChange state.acceptedPolicy kel.declaredWitnessPolicy
  free : ∀ c, j.transitionCertification kel.did event.prior state.acceptedPolicy.generation =
    some c → c = event.digest
  signed : signWitnessReceipt (receiptStatement kel.did event state.acceptedPolicy.generation
    witnessId observedEpoch) witnessKey = .ok receipt

/-- What a successful certification does. -/
lemma certifyPolicyTransition_on_ok {receipt : WitnessReceipt} :
    (certifyPolicyTransition kel witnessId witnessKey observedEpoch).on j = (.ok receipt, j') ↔
      ∃ event state, Certifies j kel witnessId witnessKey observedEpoch event state receipt ∧
        j' = j.recordTransitionCertification kel.did event.prior state.acceptedPolicy.generation
          event.digest := by
  rw [certifyPolicyTransition]
  simp only [on_check_bind_ok, mapError_ok, on_get_bind, okOr_ok, failIf_ok]
  constructor
  · rintro ⟨s, hs, state, hstate, event, hevent, ⟨⟩, hnext, ⟨⟩, hmem, ⟨⟩, hchange, ⟨⟩, hfree,
      receipt, hsigned, h⟩
    cases h
    refine ⟨event, state, ⟨⟨s, hs⟩, hevent, hstate, ?_, ?_, ?_, not_not.mp hchange,
      checkReserved_ok.mp hfree, hsigned⟩, rfl⟩
    · exact not_not.mp fun hsn => hnext (.inl hsn)
    · exact not_not.mp fun hprior => hnext (.inr hprior)
    · simpa [WitnessPolicy.contains] using hmem
  · rintro ⟨event, state, h, rfl⟩
    obtain ⟨s, hs⟩ := h.verified
    refine ⟨s, hs, state, h.retained, event, h.last, (), ?_, (), ?_, (), not_not.mpr h.change, (),
      checkReserved_ok.mpr h.free, receipt, h.signed, rfl⟩
    · rintro (hsn | hprior)
      · exact hsn h.sn_eq
      · exact hprior h.prior_eq
    · simpa [WitnessPolicy.contains] using h.member

/-- A certification that fails leaves the journal alone. -/
lemma certifyPolicyTransition_on_error
    (h : (certifyPolicyTransition kel witnessId witnessKey observedEpoch).on j = (.error f, j')) :
    j' = j := by
  simp only [certifyPolicyTransition, on_check_bind, on_get_bind] at h
  grind [on_modify_bind, on_pure]

end WitnessJournal

end Mininet.Identity

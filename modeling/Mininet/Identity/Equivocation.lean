import Mininet.Identity.Obtained
import Mininet.Identity.WitnessJournal

/-!
# A witness does not equivocate

Receipts are signed on two paths, by acceptance and by certification of a successor that is not
accepted yet. `Kept` relates all receipts that were returned to what the journal retains: none is
beyond the successor of the retained head, and one for that successor is the certified one. The
sequence number after the last one is zero, and there the witness loses sight of what it signed.
-/

namespace Mininet.Identity

open Codec Fallible Stateful List

namespace WitnessJournal

/-- The calls that sign receipts. -/
inductive Call where
  | observe (event : Event) (policy : WitnessPolicy) (witnessId : WitnessId)
      (witnessKey : SigningKey) (observedEpoch : UInt64)
  | observeVerified (kel : Kel) (policy : WitnessPolicy) (witnessId : WitnessId)
      (witnessKey : SigningKey) (observedEpoch : UInt64)
  | observeDeclared (kel : Kel) (witnessId : WitnessId) (witnessKey : SigningKey)
      (observedEpoch : UInt64)
  | certifyPolicyTransition (kel : Kel) (witnessId : WitnessId) (witnessKey : SigningKey)
      (observedEpoch : UInt64)

/-- What they return. -/
inductive Answer where
  | observation (o : WitnessObservation)
  | certified (receipt : WitnessReceipt)

def Answer.receipt? : Answer → Option WitnessReceipt
  | .observation o     => o.receipt?
  | .certified receipt => some receipt

/-- The event that a call is about. -/
def Call.event? : Call → Option Event
  | .observe event _ _ _ _             => some event
  | .observeVerified kel _ _ _ _       => kel.events.getLast?
  | .observeDeclared kel _ _ _         => kel.events.getLast?
  | .certifyPolicyTransition kel _ _ _ => kel.events.getLast?

section

variable [KeyPrimitives]

def Call.perform : Call → InPlace WitnessJournal Fault Answer
  | .observe event policy w key epoch       =>
    .observation <$> WitnessJournal.observe event policy w key epoch
  | .observeVerified kel policy w key epoch =>
    .observation <$> WitnessJournal.observeVerified kel policy w key epoch
  | .observeDeclared kel w key epoch        =>
    .observation <$> WitnessJournal.observeDeclared kel w key epoch
  | .certifyPolicyTransition kel w key epoch =>
    .certified <$> WitnessJournal.certifyPolicyTransition kel w key epoch

/-- The journals that runs of calls lead to, with the calls made and what they returned, the last
one first. -/
inductive Reached (allowed : WitnessJournal → Call → Prop) :
    List (Call × Except Fault Answer) → WitnessJournal → Prop
  | new : Reached allowed [] new
  | call {history : List (Call × Except Fault Answer)} {j j' : WitnessJournal} {call : Call}
      {answer : Except Fault Answer} (before : Reached allowed history j) (ok : allowed j call)
      (made : call.perform.on j = (answer, j')) : Reached allowed ((call, answer) :: history) j'

end

/-- The receipts that a run has returned. -/
def Issued (history : List (Call × Except Fault Answer)) (receipt : WitnessReceipt) : Prop :=
  ∃ call answer, (call, .ok answer) ∈ history ∧ answer.receipt? = some receipt

variable {history : List (Call × Except Fault Answer)} {j : WitnessJournal}

lemma issued_accepted (call : Call) (history : List (Call × Except Fault Answer))
    (receipt : WitnessReceipt) :
    Issued ((call, .ok (.observation (.accepted receipt))) :: history) receipt :=
  ⟨call, _, mem_cons_self, rfl⟩

lemma Issued.append {receipt : WitnessReceipt} (h : Issued history receipt)
    (later : List (Call × Except Fault Answer)) : Issued (later ++ history) receipt := by
  obtain ⟨call, answer, hmem, hreceipt⟩ := h
  exact ⟨call, answer, mem_append_right _ hmem, hreceipt⟩

/-! ### What one call issues -/

section

variable [Primitives]

/-- A receipt is about an event. -/
structure About (event : Event) (receipt : WitnessReceipt) : Prop where
  identity_eq : receipt.statement.identity = ⟨event.scid⟩
  sequence_eq : receipt.statement.sequence = event.sn
  eventDigest_eq : receipt.statement.eventDigest = event.digest

/-- A call about an event returns a receipt. -/
inductive Issues (j : WitnessJournal) (event : Event) : WitnessReceipt → WitnessJournal → Prop
  | repeated {state : WitnessIdentityState} (retained : j.stateFor ⟨event.scid⟩ = some state) :
      Issues j event state.issuedReceipt j
  | accepted {policy : WitnessPolicy} {receipt : WitnessReceipt} (about : About event receipt)
      (follows : ∀ state, j.stateFor ⟨event.scid⟩ = some state →
        event.sn = state.acceptedSequence + 1 ∧ event.prior = state.acceptedEventDigest ∧
        ∀ c, j.transitionCertification ⟨event.scid⟩ event.prior state.acceptedPolicy.generation =
          some c → c = event.digest) :
      Issues j event receipt (j.accept ⟨event.scid⟩ event policy receipt)
  | certified {state : WitnessIdentityState} {receipt : WitnessReceipt} (about : About event receipt)
      (retained : j.stateFor ⟨event.scid⟩ = some state)
      (sn_eq : event.sn = state.acceptedSequence + 1)
      (prior_eq : event.prior = state.acceptedEventDigest)
      (free : ∀ c, j.transitionCertification ⟨event.scid⟩ event.prior
        state.acceptedPolicy.generation = some c → c = event.digest) :
      Issues j event receipt (j.recordTransitionCertification ⟨event.scid⟩ event.prior
        state.acceptedPolicy.generation event.digest)

end

section

variable [KeyPrimitives]

variable {event : Event} {w : WitnessId} {key : SigningKey} {j : WitnessJournal}
  {policy : WitnessPolicy} {j' : WitnessJournal}

lemma about_of_sign {generation epoch : UInt64} {receipt : WitnessReceipt}
    (h : signWitnessReceipt (receiptStatement ⟨event.scid⟩ event generation w epoch) key = .ok receipt) :
    About event receipt := by
  obtain ⟨-, hstatement⟩ := signWitnessReceipt_ok.mp h
  exact ⟨by rw [hstatement]; rfl, by rw [hstatement]; rfl, by rw [hstatement]; rfl⟩

/-- An observation returns a receipt, or leaves the journal alone. -/
lemma issues_of_observe {epoch : UInt64}
    {r : Except Fault WitnessObservation} (h : (observe event policy w key epoch).on j = (r, j')) :
    (j' = j ∧ ∀ o, r = .ok o → o.receipt? = none) ∨
      ∃ o receipt, r = .ok o ∧ o.receipt? = some receipt ∧ Issues j event receipt j' := by
  cases r with
  | error f => exact .inl ⟨observe_on_error h, nofun⟩
  | ok o =>
    obtain ⟨-, -, hobserved⟩ := observe_on_ok.mp h
    cases hobserved with
    | alreadyAccepted retained sn_eq digest_eq => exact .inr ⟨_, _, rfl, rfl, .repeated retained⟩
    | stale retained sn_lt unrelated => exact .inl ⟨rfl, fun o ho => by cases ho; rfl⟩
    | controllerDuplicity retained sn_eq digest_ne assembled =>
      exact .inl ⟨rfl, fun o ho => by cases ho; rfl⟩
    | accepted follows signed =>
      exact .inr ⟨_, _, rfl, rfl, .accepted (about_of_sign signed) follows⟩

/-- A log that verifies names its identity in its last event. -/
lemma scid_of_last {kel : Kel} {s : KeyState} (h : kel.verify = .ok s)
    (hlast : kel.events.getLast? = some event) : event.scid = kel.scid := by
  obtain ⟨r, hr, -⟩ := Kel.verify_ok.mp h
  rw [List.getLast?_eq_getElem?] at hlast
  exact (Kel.place_of_replay hr _ _ hlast).1

/-- Every call returns a receipt for the event it is about, or leaves the journal alone. -/
lemma issues_of_perform {call : Call} {answer : Except Fault Answer}
    (h : call.perform.on j = (answer, j')) : (j' = j ∧ ∀ a, answer = .ok a → a.receipt? = none) ∨
      ∃ event a receipt, call.event? = some event ∧ answer = .ok a ∧ a.receipt? = some receipt ∧
        Issues j event receipt j' := by
  -- the three observations differ in the checks before them only
  have hobserve : ∀ {event : Event} {policy : WitnessPolicy} {w : WitnessId} {key : SigningKey}
      {epoch : UInt64} {r : Except Fault WitnessObservation},
      (WitnessJournal.observe event policy w key epoch).on j = (r, j') →
      answer = r.map .observation → call.event? = some event →
      (j' = j ∧ ∀ a, answer = .ok a → a.receipt? = none) ∨
      ∃ event a receipt, call.event? = some event ∧ answer = .ok a ∧ a.receipt? = some receipt ∧
        Issues j event receipt j' := by
    rintro event policy w key epoch r hon rfl hevent
    obtain ⟨hj, hnone⟩ | ⟨o, receipt, rfl, ho, hissues⟩ := issues_of_observe hon
    · refine .inl ⟨hj, fun a ha => ?_⟩
      obtain ⟨o, ho, rfl⟩ := map_ok.mp ha
      exact hnone o ho
    · exact .inr ⟨event, _, receipt, hevent, rfl, ho, hissues⟩
  have hfail : ∀ {f : Fault} {r : Except Fault WitnessObservation}, r = .error f → j' = j →
      answer = r.map .observation → j' = j ∧ ∀ a, answer = .ok a → a.receipt? = none := by
    rintro f r rfl hj rfl
    exact ⟨hj, nofun⟩
  cases call with
  | observe event policy w key epoch =>
    obtain ⟨r, hon, hanswer⟩ := on_map_eq.mp h
    exact hobserve hon hanswer rfl
  | observeVerified kel policy w key epoch =>
    obtain ⟨r, hon, hanswer⟩ := on_map_eq.mp h
    obtain ⟨f, -, hr, hj⟩ | ⟨s, hs, hon⟩ := on_check_bind.mp hon
    · exact .inl (hfail hr hj hanswer)
    obtain ⟨f, -, hr, hj⟩ | ⟨event, hevent, hon⟩ := on_check_bind.mp hon
    · exact .inl (hfail hr hj hanswer)
    · exact hobserve hon hanswer (okOr_ok.mp hevent)
  | observeDeclared kel w key epoch =>
    obtain ⟨r, hon, hanswer⟩ := on_map_eq.mp h
    obtain ⟨f, -, hr, hj⟩ | ⟨s, hs, hon⟩ := on_check_bind.mp hon
    · exact .inl (hfail hr hj hanswer)
    obtain ⟨f, -, hr, hj⟩ | ⟨policy, -, hon⟩ := on_check_bind.mp hon
    · exact .inl (hfail hr hj hanswer)
    obtain ⟨f, -, hr, hj⟩ | ⟨event, hevent, hon⟩ := on_check_bind.mp hon
    · exact .inl (hfail hr hj hanswer)
    · exact hobserve hon hanswer (okOr_ok.mp hevent)
  | certifyPolicyTransition kel w key epoch =>
    obtain ⟨r, hon, rfl⟩ := on_map_eq.mp h
    cases r with
    | error f => exact .inl ⟨certifyPolicyTransition_on_error hon, nofun⟩
    | ok receipt =>
      obtain ⟨event, state, hcertifies, rfl⟩ := certifyPolicyTransition_on_ok.mp hon
      obtain ⟨s, hs⟩ := hcertifies.verified
      have hdid : kel.did = ⟨event.scid⟩ := congrArg Did.mk (scid_of_last hs hcertifies.last).symm
      refine .inr ⟨event, _, receipt, hcertifies.last, rfl, rfl, ?_⟩
      have hsigned := hcertifies.signed
      have hretained := hcertifies.retained
      have hfree := hcertifies.free
      rw [hdid] at hsigned hretained hfree ⊢
      exact .certified (about_of_sign hsigned) hretained hcertifies.sn_eq hcertifies.prior_eq hfree

/-! ### What a run keeps -/

/-- The receipts returned so far, and what is retained: none is for an unknown identity, or beyond
the successor of the head; one for the head is for the accepted event, and one for the successor is
for the certified event. -/
structure Kept (issued : WitnessReceipt → Prop) (j : WitnessJournal) : Prop where
  known : ∀ r, issued r → ∃ state, j.stateFor r.statement.identity = some state
  retained : ∀ d state, j.stateFor d = some state →
    state.issuedReceipt.statement.identity = d ∧
    state.issuedReceipt.statement.sequence = state.acceptedSequence ∧
    state.issuedReceipt.statement.eventDigest = state.acceptedEventDigest
  below : ∀ r state, issued r → j.stateFor r.statement.identity = some state →
    r.statement.sequence.toNat ≤ state.acceptedSequence.toNat + 1
  head : ∀ r state, issued r → j.stateFor r.statement.identity = some state →
    r.statement.sequence = state.acceptedSequence →
    r.statement.eventDigest = state.acceptedEventDigest
  successor : ∀ r state, issued r → j.stateFor r.statement.identity = some state →
    r.statement.sequence.toNat = state.acceptedSequence.toNat + 1 →
    j.transitionCertification r.statement.identity state.acceptedEventDigest
      state.acceptedPolicy.generation = some r.statement.eventDigest
  agree : ∀ r r', issued r → issued r' → r.statement.identity = r'.statement.identity →
    r.statement.sequence = r'.statement.sequence →
    r.statement.eventDigest = r'.statement.eventDigest

omit [KeyPrimitives] in
lemma kept_new : Kept (fun _ => False) new where
  known _ hr := hr.elim
  retained _ _ hstate := absurd hstate (by simp)
  below _ _ hr := hr.elim
  head _ _ hr := hr.elim
  successor _ _ hr := hr.elim
  agree _ _ hr := hr.elim

namespace Kept

variable {issued : WitnessReceipt → Prop} {j : WitnessJournal}

variable {receipt : WitnessReceipt}

section

omit [KeyPrimitives]

/-- A receipt for the head, or for the certified successor, may be returned. -/
lemma issue (h : Kept issued j) {state : WitnessIdentityState}
    (hstate : j.stateFor receipt.statement.identity = some state)
    (hplace : (receipt.statement.sequence = state.acceptedSequence ∧
      receipt.statement.eventDigest = state.acceptedEventDigest) ∨
        (receipt.statement.sequence.toNat = state.acceptedSequence.toNat + 1 ∧
          j.transitionCertification receipt.statement.identity state.acceptedEventDigest
            state.acceptedPolicy.generation = some receipt.statement.eventDigest)) :
    Kept (fun r => r = receipt ∨ issued r) j := by
  have hagree : ∀ r, issued r → r.statement.identity = receipt.statement.identity →
      r.statement.sequence = receipt.statement.sequence →
      r.statement.eventDigest = receipt.statement.eventDigest := by
    intro r hr hidentity hsequence
    have hst := hidentity ▸ hstate
    rcases hplace with ⟨hseq, hdigest⟩ | ⟨hseq, hcertified⟩
    · rw [h.head r state hr hst (hsequence.trans hseq), hdigest]
    · have hsuccessor := h.successor r state hr hst (by rw [hsequence, hseq])
      rw [hidentity, hcertified] at hsuccessor
      exact (Option.some.inj hsuccessor).symm
  refine ⟨?_, h.retained, ?_, ?_, ?_, ?_⟩
  · rintro r (rfl | hr)
    · exact ⟨state, hstate⟩
    · exact h.known r hr
  · rintro r st (rfl | hr) hst
    · cases hstate.symm.trans hst
      rcases hplace with ⟨hseq, -⟩ | ⟨hseq, -⟩
      · rw [hseq]
        exact Nat.le_succ _
      · exact hseq.le
    · exact h.below r st hr hst
  · rintro r st (rfl | hr) hst hsequence
    · cases hstate.symm.trans hst
      rcases hplace with ⟨-, hdigest⟩ | ⟨hseq, -⟩
      · exact hdigest
      · rw [hsequence] at hseq
        omega
    · exact h.head r st hr hst hsequence
  · rintro r st (rfl | hr) hst hsequence
    · cases hstate.symm.trans hst
      rcases hplace with ⟨hseq, -⟩ | ⟨-, hcertified⟩
      · rw [hseq] at hsequence
        omega
      · exact hcertified
    · exact h.successor r st hr hst hsequence
  · rintro r r' (rfl | hr) (rfl | hr') hidentity hsequence
    · rfl
    · exact (hagree r' hr' hidentity.symm hsequence.symm).symm
    · exact hagree r hr hidentity hsequence
    · exact h.agree r r' hr hr' hidentity hsequence

/-- The successor of the head may be accepted, when no other one is certified. -/
lemma accept [Primitives] (h : Kept issued j) {event : Event} {policy : WitnessPolicy}
    (about : About event receipt)
    (follows : ∀ state, j.stateFor ⟨event.scid⟩ = some state →
      event.sn.toNat = state.acceptedSequence.toNat + 1 ∧ ∀ c,
        j.transitionCertification ⟨event.scid⟩ state.acceptedEventDigest
          state.acceptedPolicy.generation = some c → c = event.digest) :
    Kept issued (j.accept ⟨event.scid⟩ event policy receipt) := by
  -- what was issued before for this identity is for the accepted event, or further back
  have hbefore : ∀ r, issued r → r.statement.identity = ⟨event.scid⟩ →
      r.statement.sequence.toNat ≤ event.sn.toNat ∧
      (r.statement.sequence = event.sn → r.statement.eventDigest = event.digest) := by
    intro r hr hidentity
    obtain ⟨state, hstate⟩ := h.known r hr
    obtain ⟨hsn, hfree⟩ := follows state (hidentity ▸ hstate)
    refine ⟨hsn ▸ h.below r state hr hstate, fun hsequence => ?_⟩
    have hcertified := h.successor r state hr hstate (by rw [hsequence, hsn])
    exact hfree _ (hidentity ▸ hcertified)
  have hother : ∀ {d : Did}, d ≠ ⟨event.scid⟩ →
      (j.accept ⟨event.scid⟩ event policy receipt).stateFor d = j.stateFor d :=
    fun hne => stateFor_accept_of_ne hne _ _ _ _
  have hself := stateFor_accept_self ⟨event.scid⟩ event policy receipt j
  refine ⟨?_, ?_, ?_, ?_, ?_, h.agree⟩
  · intro r hr
    by_cases hidentity : r.statement.identity = ⟨event.scid⟩
    · rw [hidentity]
      exact ⟨_, hself⟩
    · exact hother hidentity ▸ h.known r hr
  · intro d state hstate
    by_cases hidentity : d = ⟨event.scid⟩
    · subst hidentity
      cases hself.symm.trans hstate
      exact ⟨about.identity_eq, about.sequence_eq, about.eventDigest_eq⟩
    · exact h.retained d state (hother hidentity ▸ hstate)
  · intro r state hr hstate
    by_cases hidentity : r.statement.identity = ⟨event.scid⟩
    · rw [hidentity, hself] at hstate
      cases hstate
      exact (hbefore r hr hidentity).1.trans (Nat.le_succ _)
    · exact h.below r state hr (hother hidentity ▸ hstate)
  · intro r state hr hstate hsequence
    by_cases hidentity : r.statement.identity = ⟨event.scid⟩
    · rw [hidentity, hself] at hstate
      cases hstate
      exact (hbefore r hr hidentity).2 hsequence
    · exact h.head r state hr (hother hidentity ▸ hstate) hsequence
  · intro r state hr hstate hsequence
    by_cases hidentity : r.statement.identity = ⟨event.scid⟩
    · rw [hidentity, hself] at hstate
      cases hstate
      exact absurd (hbefore r hr hidentity).1 (by rw [hsequence]; exact Nat.not_succ_le_self _)
    · exact h.successor r state hr (hother hidentity ▸ hstate) hsequence

/-- A successor may be certified, when no other one is. -/
lemma record (h : Kept issued j) {d : Did} {predecessor successor : Bytes} {generation : UInt64}
    (free : ∀ c, j.transitionCertification d predecessor generation = some c → c = successor) :
    Kept issued (j.recordTransitionCertification d predecessor generation successor) := by
  refine ⟨h.known, h.retained, h.below, h.head, fun r st hr hst hsequence => ?_, h.agree⟩
  have hcertified := h.successor r st hr hst hsequence
  rw [transitionCertification_record]
  split_ifs with hkey
  · obtain ⟨hidentity, hdigest, hgeneration⟩ := hkey
    rw [hidentity, hdigest, hgeneration] at hcertified
    rw [free _ hcertified]
  · exact hcertified

end

/-- Every call that does not pass the last sequence number keeps it. -/
lemma issues (h : Kept issued j) {event : Event} {j' : WitnessJournal}
    (hissues : Issues j event receipt j')
    (hpass : ∀ state, j.stateFor ⟨event.scid⟩ = some state → event.sn = state.acceptedSequence + 1 →
      event.prior = state.acceptedEventDigest → event.sn ≠ 0) :
    Kept (fun r => r = receipt ∨ issued r) j' := by
  have hnext : ∀ {state : WitnessIdentityState}, j.stateFor ⟨event.scid⟩ = some state →
      event.sn = state.acceptedSequence + 1 → event.prior = state.acceptedEventDigest →
      event.sn.toNat = state.acceptedSequence.toNat + 1 := by
    intro state hstate hsn hprior
    have hzero : event.sn.toNat ≠ 0 := fun hzero =>
      hpass state hstate hsn hprior (UInt64.toNat_inj.mp hzero)
    rw [hsn, UInt64.toNat_add] at hzero ⊢
    have hlt := state.acceptedSequence.toNat_lt
    have hone : (1 : UInt64).toNat = 1 := rfl
    omega
  cases hissues with
  | repeated retained =>
    obtain ⟨hidentity, hsequence, hdigest⟩ := h.retained _ _ retained
    exact h.issue (hidentity.symm ▸ retained) (.inl ⟨hsequence, hdigest⟩)
  | @accepted policy receipt about follows =>
    have hkept : Kept issued (j.accept ⟨event.scid⟩ event policy receipt) := by
      refine h.accept about fun state hstate => ?_
      obtain ⟨hsn, hprior, hfree⟩ := follows state hstate
      exact ⟨hnext hstate hsn hprior, hprior ▸ hfree⟩
    have hself := stateFor_accept_self ⟨event.scid⟩ event policy receipt j
    rw [← about.identity_eq] at hself hkept ⊢
    exact hkept.issue hself (.inl ⟨about.sequence_eq, about.eventDigest_eq⟩)
  | @certified state receipt about retained sn_eq prior_eq free =>
    rw [prior_eq] at free ⊢
    have hkept := h.record free
    refine hkept.issue (about.identity_eq.symm ▸ retained) (.inr ⟨?_, ?_⟩)
    · rw [about.sequence_eq]
      exact hnext retained sn_eq prior_eq
    · rw [about.identity_eq, about.eventDigest_eq]
      rw [transitionCertification_record, if_pos ⟨rfl, rfl, rfl⟩]

end Kept

/-- A call does not present the successor of the event with the last sequence number, whose own is
zero. -/
def Passable (j : WitnessJournal) (call : Call) : Prop :=
  ∀ event state, call.event? = some event → j.stateFor ⟨event.scid⟩ = some state →
    event.sn = state.acceptedSequence + 1 → event.prior = state.acceptedEventDigest → event.sn ≠ 0

lemma kept_of_reached {history : List (Call × Except Fault Answer)} (h : Reached Passable history j) :
    Kept (Issued history) j := by
  induction h with
  | new =>
    have hnone : Issued [] = fun _ => False := by
      funext r
      simp [Issued]
    exact hnone ▸ kept_new
  | @call history j j' call answer before ok made ih =>
    obtain ⟨rfl, hnone⟩ | ⟨event, a, receipt, hevent, rfl, hreceipt, hissues⟩ :=
      issues_of_perform made
    · have hsame : Issued ((call, answer) :: history) = Issued history := by
        funext r
        refine propext ⟨?_, fun ⟨c, a, hmem, ha⟩ => ⟨c, a, mem_cons_of_mem _ hmem, ha⟩⟩
        rintro ⟨c, a, hmem, ha⟩
        rcases mem_cons.mp hmem with heq | hmem
        · cases heq
          rw [hnone a rfl] at ha
          cases ha
        · exact ⟨c, a, hmem, ha⟩
      exact hsame ▸ ih
    · have hmore : Issued ((call, .ok a) :: history) = fun r => r = receipt ∨ Issued history r := by
        funext r
        refine propext ⟨?_, ?_⟩
        · rintro ⟨c, b, hmem, hb⟩
          rcases mem_cons.mp hmem with heq | hmem
          · cases heq
            exact .inl (Option.some.inj (hb.symm.trans hreceipt))
          · exact .inr ⟨c, b, hmem, hb⟩
        · rintro (rfl | ⟨c, b, hmem, hb⟩)
          · exact ⟨call, a, mem_cons_self, hreceipt⟩
          · exact ⟨c, b, mem_cons_of_mem _ hmem, hb⟩
      exact hmore ▸ ih.issues hissues fun state => ok event state hevent

/-- An event that fits is accepted from a witness of its policy. -/
lemma exists_accepted (j : WitnessJournal) (event : Event) (epoch : UInt64)
    (hmem : w ∈ policy.witnesses) (hscid : Primitives.validateScid event.scid = .ok ())
    (hkey : key.suite = .ed25519)
    (follows : ∀ state, j.stateFor ⟨event.scid⟩ = some state →
      event.sn = state.acceptedSequence + 1 ∧ event.prior = state.acceptedEventDigest ∧ ∀ c,
        j.transitionCertification ⟨event.scid⟩ event.prior state.acceptedPolicy.generation =
          some c → c = event.digest) :
    ∃ receipt, receipt.statement = receiptStatement ⟨event.scid⟩ event policy.generation w epoch ∧
      (observe event policy w key epoch).on j =
        (.ok (.accepted receipt), j.accept ⟨event.scid⟩ event policy receipt) := by
  obtain ⟨receipt, hsigned⟩ := exists_signWitnessReceipt hkey
    (receiptStatement ⟨event.scid⟩ event policy.generation w epoch)
  exact ⟨receipt, (signWitnessReceipt_ok.mp hsigned).2,
    observe_on_ok.mpr ⟨hmem, hscid, .accepted follows hsigned⟩⟩

end

/-! ### Passing the last sequence number -/

open Controller (sampleWitness valid_sampleWitness)

/-- An event of an identity that is its own witness. -/
def sampleEvent (sn : UInt64) (prior : Bytes) (anchors : List Hash) : Event :=
  ⟨.ed25519, sampleWitness.scid, sn, prior, .interaction anchors, []⟩

def samplePolicy : WitnessPolicy := ⟨0, [sampleWitness], 1⟩

def sampleAnchor : Hash := Vector.replicate 32 1

/-- Under the sample digest, an event with the anchor is told from one without by its fifth byte
from the end. -/
lemma digest_sampleEvent_ne (sn sn' : UInt64) (prior prior' : Bytes) :
    @Event.digest Primitives.sample (sampleEvent sn prior [sampleAnchor]) ≠
      @Event.digest Primitives.sample (sampleEvent sn' prior' []) := by
  let := Primitives.sample
  have hbyte : ∀ bs : Bytes, (Primitives.sample.blake3 bs)[4] = bs.reverse.getD 4 0 := fun bs =>
    Vector.getElem_ofFn (by decide)
  have htail : ∀ xs ys : Bytes, 4 < ys.length →
      (xs ++ ys).reverse.getD 4 0 = ys.reverse.getD 4 0 := fun xs ys hlt => by
    rw [reverse_append, getD_append _ _ _ _ (by simpa using hlt)]
  intro heq
  have hblake := Hash.bytes_injective (append_cancel_left heq)
  have hfifth := congrArg (fun h : Hash => h[4]) hblake
  simp only [hbyte] at hfifth
  have hfull : ∀ sn prior anchors, ∃ xs, (sampleEvent sn prior anchors).fullBytes =
      xs ++ (EventKind.encode (.interaction anchors) ++ encodeSigs []) := fun sn prior anchors =>
    ⟨[0x03] ++ [SignatureSuite.ed25519.tag] ++ framed UInt32 (utf8 sampleWitness.scid) ++
      toBeBytes sn ++ framed UInt32 prior,
      by simp [Event.fullBytes, Event.encode, sampleEvent, EventKind.tag]⟩
  obtain ⟨xs, hxs⟩ := hfull sn prior [sampleAnchor]
  obtain ⟨ys, hys⟩ := hfull sn' prior' []
  rw [hxs, hys, htail xs _ (by decide), htail ys _ (by decide)] at hfifth
  exact absurd hfifth (by decide)

/-- The next event of the sample identity is accepted. -/
lemma sample_step {allowed : WitnessJournal → Call → Prop} (h : @Reached .sample allowed history j)
    (hfree : ∀ d p g, j.transitionCertification d p g = none) (sn : UInt64) (prior : Bytes)
    (anchors : List Hash)
    (follows : ∀ state, j.stateFor sampleWitness = some state → sn = state.acceptedSequence + 1 ∧
      prior = state.acceptedEventDigest)
    (hok : allowed j (.observe (sampleEvent sn prior anchors) samplePolicy sampleWitness
      (sampleKey 0) 0)) :
    ∃ receipt j' state, receipt.statement = @receiptStatement KeyPrimitives.sample.toPrimitives
        sampleWitness (sampleEvent sn prior anchors) 0 sampleWitness 0 ∧
      @Reached .sample allowed
        ((.observe (sampleEvent sn prior anchors) samplePolicy sampleWitness (sampleKey 0) 0,
          .ok (.observation (.accepted receipt))) :: history) j' ∧
      j'.stateFor sampleWitness = some state ∧ state.acceptedSequence = sn ∧
      ∀ d p g, j'.transitionCertification d p g = none := by
  let := KeyPrimitives.sample
  have hmem : sampleWitness ∈ samplePolicy.witnesses := by simp [samplePolicy]
  have hkey : (sampleKey 0).suite = .ed25519 := rfl
  obtain ⟨receipt, hreceipt, hon⟩ := exists_accepted j (sampleEvent sn prior anchors) 0 hmem
    valid_sampleWitness.validateScid hkey fun state hstate =>
      ⟨(follows state hstate).1, (follows state hstate).2, by simp [hfree]⟩
  refine ⟨receipt, j.accept sampleWitness (sampleEvent sn prior anchors) samplePolicy receipt, _,
    hreceipt, h.call hok ?_, stateFor_accept_self _ _ _ _ _, rfl, hfree⟩
  exact on_map_eq.mpr ⟨_, hon, rfl⟩

/-- From an event with the last sequence number, the run goes on from zero. -/
lemma sample_march {state : WitnessIdentityState} (h : @Reached .sample (fun _ _ => True) history j)
    (hstate : j.stateFor sampleWitness = some state) (hlast : state.acceptedSequence = 0 - 1)
    (hfree : ∀ d p g, j.transitionCertification d p g = none) (n : ℕ) :
    ∃ later j' state', @Reached .sample (fun _ _ => True) (later ++ history) j' ∧
      j'.stateFor sampleWitness = some state' ∧ state'.acceptedSequence = UInt64.ofNat n - 1 ∧
      ∀ d p g, j'.transitionCertification d p g = none := by
  induction n with
  | zero => exact ⟨[], j, state, h, hstate, hlast, hfree⟩
  | succ n ih =>
    obtain ⟨later, j', state', hreached, hstate', hsn, hfree'⟩ := ih
    obtain ⟨receipt, j'', state'', -, hreached', hstate'', hsn', hfree''⟩ :=
      sample_step hreached hfree' (UInt64.ofNat n) state'.acceptedEventDigest []
        (fun st hst => by
          cases hstate'.symm.trans hst
          exact ⟨by rw [hsn, UInt64.sub_add_cancel], rfl⟩) trivial
    refine ⟨_ :: later, j'', state'', hreached', hstate'', ?_, hfree''⟩
    rw [hsn', UInt64.ofNat_add]
    exact (UInt64.add_sub_cancel _ _).symm

end WitnessJournal

end Mininet.Identity

import Mininet.Identity.Equivocation
import Mininet.Identity.History
import Mininet.Identity.Policy

/-!
# Accusations of duplicity

A witness that is shown two events for one place in a log accuses the controller. An event is known
by a digest over its signatures too, while verification passes over signatures that do not count.
So an accusation says that events were packaged in two ways, and where nobody does that to what the
controller signed, the controller is not accused and is not held up.
-/

namespace Mininet.Identity

open Codec Fallible Stateful List

/-! ### Surplus signatures -/

/-- An event with one more signature. -/
def Event.repackaged (e : Event) (s : IndexedSig) : Event :=
  { e with signatures := e.signatures ++ [s] }

/-- The events of a log have their places for themselves. -/
lemma Kel.eq_of_sn [KeyPrimitives] {kel : Kel} {s : KeyState} (hs : kel.verify = .ok s)
    (hlength : kel.events.length ≤ 2 ^ 64) {e e' : Event} (he : e ∈ kel.events)
    (he' : e' ∈ kel.events) (hsn : e.sn = e'.sn) : e = e' := by
  obtain ⟨r, hr, -⟩ := verify_ok.mp hs
  obtain ⟨i, hi⟩ := mem_iff_getElem?.mp he
  obtain ⟨i', hi'⟩ := mem_iff_getElem?.mp he'
  have hlt := (List.getElem?_eq_some_iff.mp hi).1
  have hlt' := (List.getElem?_eq_some_iff.mp hi').1
  rw [(place_of_replay hr _ _ hi).2, (place_of_replay hr _ _ hi').2] at hsn
  have hnat := congrArg UInt64.toNat hsn
  rw [UInt64.toNat_ofNat_of_lt' (hlt.trans_le hlength),
    UInt64.toNat_ofNat_of_lt' (hlt'.trans_le hlength)] at hnat
  subst hnat
  exact Option.some.inj (hi.symm.trans hi')

namespace WitnessJournal

/-- A call that shows the journal a log. -/
def OnlyDeclared (_ : WitnessJournal) (call : Call) : Prop :=
  ∃ kel w key epoch, call = .observeDeclared kel w key epoch

/-- The logs that a run was shown. -/
def Presented (history : List (Call × Except Fault Answer)) (kel : Kel) : Prop :=
  ∃ w key epoch answer, (.observeDeclared kel w key epoch, answer) ∈ history

lemma Presented.cons {history : List (Call × Except Fault Answer)} {kel : Kel}
    (h : Presented history kel) (entry : Call × Except Fault Answer) :
    Presented (entry :: history) kel := by
  obtain ⟨w, key, epoch, answer, hmem⟩ := h
  exact ⟨w, key, epoch, answer, mem_cons_of_mem _ hmem⟩

lemma presented_cons (kel : Kel) (w : WitnessId) (key : SigningKey) (epoch : UInt64)
    (answer : Except Fault Answer) (history : List (Call × Except Fault Answer)) :
    Presented ((.observeDeclared kel w key epoch, answer) :: history) kel :=
  ⟨w, key, epoch, answer, mem_cons_self⟩

section

variable [KeyPrimitives]

/-- An event of a log of an identity that verifies. -/
structure EventOf (logs : Kel → Prop) (d : Did) (event : Event) (kel : Kel) : Prop where
  log : logs kel
  did : kel.did = d
  verified : ∃ s, kel.verify = .ok s
  mem : event ∈ kel.events

variable {logs : Kel → Prop} {event : Event} {kel : Kel} {j : WitnessJournal}
  {history : List (Call × Except Fault Answer)} {logs' : Kel → Prop} {s : KeyState}

lemma EventOf.mono {d : Did} (h : EventOf logs d event kel)
    (hlogs : ∀ k, logs k → logs' k) : EventOf logs' d event kel :=
  ⟨hlogs kel h.log, h.did, h.verified, h.mem⟩

/-- What is retained was shown, and nothing is reserved. -/
structure Shown (logs : Kel → Prop) (j : WitnessJournal) : Prop where
  shown : ∀ d state, j.stateFor d = some state → ∃ kel, EventOf logs d state.acceptedEvent kel
  sequence : ∀ d state, j.stateFor d = some state →
    state.acceptedSequence = state.acceptedEvent.sn
  digest : ∀ d state, j.stateFor d = some state →
    state.acceptedEventDigest = state.acceptedEvent.digest
  free : ∀ d p g, j.transitionCertification d p g = none

lemma Shown.mono (h : Shown logs j) (hlogs : ∀ k, logs k → logs' k) : Shown logs' j where
  shown d state hstate := (h.shown d state hstate).imp fun _ hkel => hkel.mono hlogs
  sequence := h.sequence
  digest := h.digest
  free := h.free

lemma Shown.accept (h : Shown logs j) (hkel : EventOf logs ⟨event.scid⟩ event kel)
    (policy : WitnessPolicy) (receipt : WitnessReceipt) :
    Shown logs (j.accept ⟨event.scid⟩ event policy receipt) := by
  have hself := stateFor_accept_self ⟨event.scid⟩ event policy receipt j
  have hother : ∀ {d : Did}, d ≠ ⟨event.scid⟩ →
      (j.accept ⟨event.scid⟩ event policy receipt).stateFor d = j.stateFor d :=
    fun hne => stateFor_accept_of_ne hne _ _ _ _
  refine ⟨?_, ?_, ?_, h.free⟩
  all_goals
    intro d state hstate
    by_cases hd : d = ⟨event.scid⟩
    · subst hd
      cases hself.symm.trans hstate
      first | exact ⟨kel, hkel⟩ | rfl
    · rw [hother hd] at hstate
      first | exact h.shown d state hstate | exact h.sequence d state hstate |
        exact h.digest d state hstate

/-- The event that a shown log ends in. -/
lemma eventOf_last (hlog : logs kel) (hs : kel.verify = .ok s)
    (hlast : kel.events.getLast? = some event) : EventOf logs ⟨event.scid⟩ event kel :=
  ⟨hlog, congrArg Did.mk (scid_of_last hs hlast).symm, ⟨s, hs⟩, mem_of_getLast? hlast⟩

lemma shown_of_reached (h : Reached OnlyDeclared history j) : Shown (Presented history) j := by
  induction h with
  | new => exact ⟨by simp, by simp, by simp, fun _ _ _ => rfl⟩
  | @call history j j' call answer before ok made ih =>
    obtain ⟨kel, w, key, epoch, rfl⟩ := ok
    obtain ⟨r, hon, -⟩ := on_map_eq.mp made
    have hmore := ih.mono fun k hk => hk.cons (.observeDeclared kel w key epoch, answer)
    cases r with
    | error f => exact observeDeclared_on_error hon ▸ hmore
    | ok o =>
      obtain ⟨s, policy, event, hs, hpolicy, hlast, hon⟩ := observeDeclared_on_ok.mp hon
      obtain ⟨-, -, hobserved⟩ := observe_on_ok.mp hon
      cases hobserved with
      | alreadyAccepted retained sn_eq digest_eq | stale retained sn_lt unrelated
      | controllerDuplicity retained sn_eq digest_ne assembled => exact hmore
      | accepted follows signed =>
        exact hmore.accept (eventOf_last (presented_cons _ _ _ _ _ _) hs hlast) policy _

/-- An accusation rests on two logs that were shown, with two events for one place. -/
lemma exists_of_controllerDuplicity (h : Reached OnlyDeclared history j) {call : Call}
    {proof : ControllerDuplicityProof}
    (hmem : (call, .ok (.observation (.controllerDuplicity proof))) ∈ history) :
    ∃ e e' k k', EventOf (Presented history) proof.identity e k ∧
      EventOf (Presented history) proof.identity e' k' ∧ e.sn = e'.sn ∧ e.digest ≠ e'.digest := by
  induction h with
  | new => cases hmem
  | @call history j j' call' answer before ok made ih =>
    rcases mem_cons.mp hmem with heq | hmem
    · cases heq
      obtain ⟨kel, w, key, epoch, rfl⟩ := ok
      obtain ⟨r, hon, hr⟩ := on_map_eq.mp made
      obtain ⟨o, rfl, ho⟩ := map_ok.mp hr.symm
      cases ho
      obtain ⟨s, policy, event, hs, hpolicy, hlast, hon⟩ := observeDeclared_on_ok.mp hon
      obtain ⟨-, -, hobserved⟩ := observe_on_ok.mp hon
      cases hobserved with
      | @controllerDuplicity state _ retained sn_eq digest_ne assembled =>
        have hshown := (shown_of_reached before).mono fun k hk => hk.cons
          (.observeDeclared kel w key epoch, .ok (.observation (.controllerDuplicity proof)))
        obtain ⟨k, hk⟩ := hshown.shown _ _ retained
        obtain ⟨-, hproof⟩ := failIf_bind_ok.mp assembled
        cases hproof
        refine ⟨_, event, k, kel, hk, eventOf_last (presented_cons _ _ _ _ _ _) hs hlast, ?_, ?_⟩
        · rw [sn_eq, hshown.sequence _ _ retained]
        · rw [← hshown.digest _ _ retained]
          exact digest_ne.symm
    · obtain ⟨e, e', k, k', hk, hk', hsn, hdigest⟩ := ih hmem
      exact ⟨e, e', k, k', hk.mono fun _ h => h.cons _, hk'.mono fun _ h => h.cons _, hsn, hdigest⟩

/-- The event before the head of a log. -/
lemma exists_before_last {sn : UInt64} (hs : kel.verify = .ok s)
    (hlast : kel.events.getLast? = some event) (hsn : event.sn.toNat = sn.toNat + 1) :
    ∃ e ∈ kel.events, e.sn = sn ∧ event.prior = e.digest := by
  obtain ⟨r, hr, -⟩ := Kel.verify_ok.mp hs
  rw [List.getLast?_eq_getElem?] at hlast
  obtain ⟨-, hplace⟩ := Kel.place_of_replay hr _ _ hlast
  have hlt := event.sn.toNat_lt
  have hindex : kel.events.length - 1 - 1 + 1 = kel.events.length - 1 := by
    have hpos : kel.events.length - 1 ≠ 0 := by
      intro hzero
      rw [hplace, hzero] at hsn
      cases hsn
    omega
  rw [← hindex] at hlast hplace
  have hget := List.getElem?_eq_getElem (l := kel.events) (i := kel.events.length - 1 - 1) (by omega)
  refine ⟨_, mem_of_getElem? hget, ?_, Kel.prior_of_replay hr _ _ _ hget hlast⟩
  obtain ⟨-, hplace'⟩ := Kel.place_of_replay hr _ _ hget
  have hnext : event.sn = sn + 1 := by
    apply UInt64.toNat_inj.mp
    have hone : (1 : UInt64).toNat = 1 := rfl
    rw [UInt64.toNat_add, hsn, hone, Nat.mod_eq_of_lt (by omega)]
  rw [hplace', ← UInt64.add_left_inj (1 : UInt64), ← hnext, hplace, UInt64.ofNat_add]
  rfl

/-- Where events that are signed alike are packaged alike, no controller that signs one event for
each place is accused, and the successor of the retained head is accepted from every log of the
controller that names the witness. -/
theorem no_duplicity_of_one_packaging {history : List (Call × Except Fault Answer)}
    {j : WitnessJournal} (h : Reached OnlyDeclared history j) {honest : Kel → Prop} {d : Did}
    (hsigned : ∀ e e' k k', EventOf (fun k => Presented history k ∨ honest k) d e k →
      EventOf (fun k => Presented history k ∨ honest k) d e' k' → e.sn = e'.sn →
      e.signingBytes = e'.signingBytes)
    (hpackaged : ∀ e e' k k', EventOf (fun k => Presented history k ∨ honest k) d e k →
      EventOf (fun k => Presented history k ∨ honest k) d e' k' → e.sn = e'.sn →
      e.signatures = e'.signatures) :
    (∀ call proof, (call, .ok (.observation (.controllerDuplicity proof))) ∈ history →
      proof.identity ≠ d) ∧
    ∀ kel state event policy w key epoch, honest kel → kel.did = d → (∃ s, kel.verify = .ok s) →
      kel.events.getLast? = some event → j.stateFor d = some state →
      event.sn.toNat = state.acceptedSequence.toNat + 1 →
      kel.declaredWitnessPolicy = some policy → w ∈ policy.witnesses → key.suite = .ed25519 →
      ∃ receipt j', (observeDeclared kel w key epoch).on j = (.ok (.accepted receipt), j') := by
  have hdigest : ∀ {e e' k k'}, EventOf (fun k => Presented history k ∨ honest k) d e k →
      EventOf (fun k => Presented history k ∨ honest k) d e' k' → e.sn = e'.sn →
      e.digest = e'.digest := by
    intro e e' k k' he he' hsn
    rw [Event.digest, Event.digest, Event.fullBytes_eq, Event.fullBytes_eq,
      hsigned e e' k k' he he' hsn, hpackaged e e' k k' he he' hsn]
  constructor
  · rintro call proof hmem rfl
    obtain ⟨e, e', k, k', hk, hk', hsn, hne⟩ := exists_of_controllerDuplicity h hmem
    exact hne (hdigest (hk.mono fun _ => .inl) (hk'.mono fun _ => .inl) hsn)
  · rintro kel state event policy w key epoch hhonest rfl ⟨s, hs⟩ hlast hstate hsn hpolicy hmem hkey
    have hshown := shown_of_reached h
    have hscid := scid_of_last hs hlast
    have hdid : (⟨event.scid⟩ : Did) = kel.did := congrArg Did.mk hscid
    obtain ⟨e, hemem, hesn, hprior⟩ := exists_before_last hs hlast hsn
    obtain ⟨k, hk⟩ := hshown.shown _ _ hstate
    have hsame : e.digest = state.acceptedEvent.digest :=
      hdigest ⟨.inr hhonest, rfl, ⟨s, hs⟩, hemem⟩ (hk.mono fun _ => .inl)
        (hesn.trans (hshown.sequence _ _ hstate))
    have hnext : event.sn = state.acceptedSequence + 1 := by
      apply UInt64.toNat_inj.mp
      have hlt := event.sn.toNat_lt
      have hone : (1 : UInt64).toNat = 1 := rfl
      rw [UInt64.toNat_add, hone, ← hsn, Nat.mod_eq_of_lt hlt]
    have hvalid : Primitives.validateScid event.scid = .ok () := by
      rw [hscid]
      exact (Kel.valid_did_of_verify hs).validateScid
    obtain ⟨receipt, -, hon⟩ := exists_accepted j event epoch hmem hvalid hkey fun st hst => by
      rw [hdid] at hst
      cases hstate.symm.trans hst
      exact ⟨hnext, (hprior.trans hsame).trans (hshown.digest _ _ hstate).symm,
        by simp [hshown.free]⟩
    exact ⟨receipt, _, observeDeclared_on_ok.mpr ⟨s, policy, event, hs, hpolicy, hlast, hon⟩⟩

end

/-! ### Another packaging -/

open Controller

/-- A signature by the second of one keys. -/
def sampleSurplus (b : UInt8) : IndexedSig := ⟨1, .filled b⟩

/-- A run that is shown these logs, the last one first. -/
def sampleRun : List Kel → List (Call × Except Fault Answer) × WitnessJournal
  | []             => ([], new)
  | kel :: earlier =>
    let call : Call := .observeDeclared kel sampleWitness (sampleKey 0) 0
    let (answer, j) := (@Call.perform .sample call).on (sampleRun earlier).2
    ((call, answer) :: (sampleRun earlier).1, j)

lemma reached_sampleRun (kels : List Kel) :
    @Reached .sample OnlyDeclared (sampleRun kels).1 (sampleRun kels).2 := by
  let := KeyPrimitives.sample
  induction kels with
  | nil => exact .new
  | cons kel earlier ih => exact ih.call ⟨kel, _, _, _, rfl⟩ rfl

lemma mem_of_presented {kels : List Kel} {kel : Kel} (h : Presented (sampleRun kels).1 kel) :
    kel ∈ kels := by
  obtain ⟨w, key, epoch, answer, hmem⟩ := h
  induction kels with
  | nil => cases hmem
  | cons kel' earlier ih =>
    rcases mem_cons.mp hmem with heq | hmem
    · cases heq
      exact mem_cons_self
    · exact mem_cons_of_mem _ (ih hmem)

/-- Whether an answer accuses an identity. -/
def accuses (d : Did) : Except Fault Answer → Bool
  | .ok (.observation (.controllerDuplicity proof)) => proof.identity = d
  | _                                               => false

lemma exists_of_accuses {d : Did} {answer : Except Fault Answer} (h : accuses d answer) :
    ∃ proof, answer = .ok (.observation (.controllerDuplicity proof)) ∧ proof.identity = d := by
  unfold accuses at h
  split at h
  next proof => exact ⟨proof, rfl, of_decide_eq_true h⟩
  next => cases h

/-- After these logs, a journal retains what comes before the head of a log. -/
def Awaits (j : WitnessJournal) (long : Kel) : Prop :=
  (@Kel.verify .sample long).isOk ∧
    (∃ state ∈ j.stateFor long.did, ∃ event ∈ long.events.getLast?,
      event.sn.toNat = state.acceptedSequence.toNat + 1) ∧
    ∃ policy ∈ @Kel.declaredWitnessPolicy KeyPrimitives.sample.toPrimitives long,
      sampleWitness ∈ policy.witnesses

instance (j : WitnessJournal) (long : Kel) : Decidable (Awaits j long) :=
  inferInstanceAs (Decidable (_ ∧ _))

/-- Whether events of these logs that share a place agree in something. -/
def alike {α : Type} [DecidableEq α] (f : Event → α) (kels : List Kel) : Bool :=
  (kels.flatMap Kel.events).all fun e => (kels.flatMap Kel.events).all fun e' =>
    decide (e.sn = e'.sn → f e = f e')

lemma eq_of_alike {α : Type} [DecidableEq α] {f : Event → α} {long : Kel} {kels : List Kel}
    (h : alike f (long :: kels)) {d : Did} {e e' : Event} {k k' : Kel}
    (he : @EventOf .sample (fun k => Presented (sampleRun kels).1 k ∨ k = long) d e k)
    (he' : @EventOf .sample (fun k => Presented (sampleRun kels).1 k ∨ k = long) d e' k')
    (hsn : e.sn = e'.sn) : f e = f e' := by
  let := KeyPrimitives.sample
  have hmem : ∀ {e k}, EventOf (fun k => Presented (sampleRun kels).1 k ∨ k = long) d e k →
      e ∈ (long :: kels).flatMap Kel.events := by
    intro e k he
    refine mem_flatMap.mpr ⟨k, ?_, he.mem⟩
    rcases he.log with hshown | rfl
    · exact mem_cons_of_mem _ (mem_of_presented hshown)
    · exact mem_cons_self
  exact of_decide_eq_true (all_eq_true.mp (all_eq_true.mp h e (hmem he)) e' (hmem he')) hsn

theorem sample_no_duplicity :
    ∃ (long : Kel) (history : List (Call × Except Fault Answer)) (j : WitnessJournal),
      @Reached .sample OnlyDeclared history j ∧
      (∀ call proof, (call, .ok (.observation (.controllerDuplicity proof))) ∈ history →
        proof.identity ≠ long.did) ∧
      ∃ receipt j', (@observeDeclared .sample long sampleWitness (sampleKey 0) 0).on j =
        (.ok (.accepted receipt), j') := by
  let := KeyPrimitives.sample
  obtain ⟨-, c₁, c₂, -, -, -, htest⟩ := exists_sample_appointed (interact [])
    (fun c₁ c₂ => alike id [c₂.kel, c₁.kel] && decide (Awaits (sampleRun [c₁.kel]).2 c₂.kel))
    (by decide +kernel)
  obtain ⟨halike, hawaits⟩ := (Bool.and_eq_true _ _).mp htest
  obtain ⟨hverify, ⟨state, hstate, event, hlast, hsn⟩, policy, hpolicy, hmem⟩ :=
    of_decide_eq_true hawaits
  obtain ⟨hclear, haccepted⟩ := @no_duplicity_of_one_packaging _ _ _
    (reached_sampleRun [c₁.kel]) (· = c₂.kel) _
    (fun e e' k k' he he' h => congrArg Event.signingBytes (eq_of_alike halike he he' h))
    (fun e e' k k' he he' h => congrArg Event.signatures (eq_of_alike halike he he' h))
  exact ⟨c₂.kel, _, _, reached_sampleRun [c₁.kel], hclear, haccepted _ state event policy _ _ 0 rfl
    rfl (isOk_iff_exists.mp hverify) hlast hstate hsn hpolicy hmem rfl⟩

/-- Whoever adds a signature to a log before it reaches the witness has the controller accused and
its next event refused. -/
theorem sample_duplicity_of_repackaging :
    ∃ (long : Kel) (history : List (Call × Except Fault Answer)) (j : WitnessJournal),
      @Reached .sample OnlyDeclared history j ∧
      (∀ e e' k k', @EventOf .sample (fun k => Presented history k ∨ k = long) long.did e k →
        @EventOf .sample (fun k => Presented history k ∨ k = long) long.did e' k' →
        e.sn = e'.sn → e.signingBytes = e'.signingBytes) ∧
      (∃ call proof, (call, .ok (.observation (.controllerDuplicity proof))) ∈ history ∧
        proof.identity = long.did) ∧
      ∃ s state event policy, @Kel.verify .sample long = .ok s ∧
        j.stateFor long.did = some state ∧ long.events.getLast? = some event ∧
        event.sn.toNat = state.acceptedSequence.toNat + 1 ∧
        @Kel.declaredWitnessPolicy KeyPrimitives.sample.toPrimitives long = some policy ∧
        sampleWitness ∈ policy.witnesses ∧
        ∃ f j', (@observeDeclared .sample long sampleWitness (sampleKey 0) 0).on j =
          (.error f, j') := by
  let := KeyPrimitives.sample
  -- the log that comes first has a surplus signature on its last event
  let shown (c₁ : Controller) : List Kel := [c₁.kel,
    ⟨c₁.scid, c₁.events.dropLast ++ (c₁.events.getLast?.map (·.repackaged (sampleSurplus 1))).toList⟩]
  obtain ⟨-, c₁, c₂, -, -, -, htest⟩ := exists_sample_appointed (interact [])
    (fun c₁ c₂ => alike Event.signingBytes (c₂.kel :: shown c₁) &&
      (sampleRun (shown c₁)).1.any (fun entry => accuses c₂.kel.did entry.2) &&
      decide (Awaits (sampleRun (shown c₁)).2 c₂.kel) &&
      !((observeDeclared c₂.kel sampleWitness (sampleKey 0) 0).on (sampleRun (shown c₁)).2).1.isOk)
    (by decide +kernel)
  simp only [Bool.and_eq_true, Bool.not_eq_true'] at htest
  obtain ⟨⟨⟨halike, haccused⟩, hawaits⟩, hrefused⟩ := htest
  obtain ⟨⟨call, answer⟩, hmem, haccuses⟩ := any_eq_true.mp haccused
  obtain ⟨proof, rfl, hproof⟩ := exists_of_accuses haccuses
  obtain ⟨hverify, ⟨state, hstate, event, hlast, hsn⟩, policy, hpolicy, hnamed⟩ :=
    of_decide_eq_true hawaits
  obtain ⟨s, hs⟩ := isOk_iff_exists.mp hverify
  refine ⟨c₂.kel, _, _, reached_sampleRun (shown c₁), fun e e' k k' he he' h =>
    eq_of_alike halike he he' h, ⟨call, proof, hmem, hproof⟩, s, state, event, policy, hs, hstate,
    hlast, hsn, hpolicy, hnamed, ?_⟩
  match hon : (observeDeclared c₂.kel sampleWitness (sampleKey 0) 0).on (sampleRun (shown c₁)).2 with
  | (.error f, j') => exact ⟨f, j', rfl⟩
  | (.ok o, j') =>
    rw [hon] at hrefused
    cases hrefused

end WitnessJournal

end Mininet.Identity

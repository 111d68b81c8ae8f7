import Mininet.Forge.Publish
import Mininet.Forge.Version

/-!
# Adopting releases

A device keeps the release it runs and the releases its owner refused. It can ask whether a release
could be adopted, and adopt it. Both go through the gates again: the device's view must be recent,
the version must go up, and the release must be governed. Only adopting looks at whether the
freshness policy itself is within bounds, and nothing looks at the version of the first release.
-/

namespace Mininet.Update

open Codec Fallible Stateful Identity Objects Forge List

/-- Why a release is not adoptable yet. -/
inductive NotYetReason where
  | timelockActive
  | notEnoughAttestations (needed got : UInt32)
  | artifactUnavailable
  | notEnoughProvenanceAgreement (needed got : UInt32)
  deriving DecidableEq

/-- The outcome of evaluating a release. -/
inductive AdoptionDecision where
  | adoptable (verified : VerifiedRelease)
  | notYetAdoptable (reason : NotYetReason)
  | refused
  | rejected (e : ForgeError)
  | viewTooStale (lastSyncedMs maxStalenessMs : UInt64)

/-- What a failed verification decides. Time, attestations and chunks can still come. -/
def AdoptionDecision.ofError : ForgeError → AdoptionDecision
  | .timelockActive                   => .notYetAdoptable .timelockActive
  | .notEnoughAttestations needed got => .notYetAdoptable (.notEnoughAttestations needed got)
  | .artifactUnavailable              => .notYetAdoptable .artifactUnavailable
  | e                                 => .rejected e

def AdoptionDecision.ofVerified : Except ForgeError VerifiedRelease → AdoptionDecision
  | .ok verified => .adoptable verified
  | .error e     => ofError e

lemma AdoptionDecision.ofVerified_eq_adoptable {x : Except ForgeError VerifiedRelease}
    {v : VerifiedRelease} : ofVerified x = .adoptable v ↔ x = .ok v := by
  cases x with
  | ok w => simp [ofVerified]
  | error e =>
    refine ⟨fun h => ?_, nofun⟩
    cases e <;> cases h

/-- Why a release was not adopted. -/
inductive AdoptError where
  | viewTooStale (lastSyncedMs maxStalenessMs : UInt64)
  | forge (e : ForgeError)
  deriving DecidableEq

/-- How recently a device must have synced. -/
structure FreshnessPolicy where
  maxStalenessMs : UInt64

def freshnessMaxAllowedStalenessMs : UInt64 := 30 * 24 * 3600000

namespace FreshnessPolicy

def validate (freshness : FreshnessPolicy) : Except ForgeError Unit :=
  failIf (freshness.maxStalenessMs = 0 ∨
    freshness.maxStalenessMs > freshnessMaxAllowedStalenessMs) .badObject

/-- The decision on a view that is too old. The subtraction saturates. -/
def check (freshness : FreshnessPolicy) (nowMs lastSyncedMs : UInt64) : Option AdoptionDecision :=
  if nowMs.toNat - lastSyncedMs.toNat > freshness.maxStalenessMs.toNat then
    some (.viewTooStale lastSyncedMs freshness.maxStalenessMs)
  else none

lemma check_some {freshness : FreshnessPolicy} {nowMs lastSyncedMs : UInt64}
    {d : AdoptionDecision} (h : freshness.check nowMs lastSyncedMs = some d) :
    d = .viewTooStale lastSyncedMs freshness.maxStalenessMs := by
  rw [check] at h
  split_ifs at h
  exact (Option.some.inj h).symm

end FreshnessPolicy

/-- What a device runs, and what it refused. -/
structure AdoptionState where
  running : Option ObjectId
  refused : List ObjectId

/-- What a release is looked at with. -/
structure Request where
  store : Store
  oracle : IdentityOracle
  candidate : ObjectId
  projectId : ObjectId
  branch : String
  policy : ReleasePolicy
  freshness : FreshnessPolicy
  lastSyncedMs : UInt64

namespace AdoptionState

def new : AdoptionState := ⟨none, []⟩

/-- Refuse a release. -/
def refuse (st : AdoptionState) (candidate : ObjectId) : AdoptionState :=
  if candidate ∈ st.refused then st else { st with refused := st.refused ++ [candidate] }

section

variable [KeyPrimitives]

/-- Whether the version goes up, when something is running. -/
def checkRollback (running : Option ObjectId) (s : Store) (candidate : ObjectId) :
    Except ForgeError Unit :=
  match running with
  | none         => .ok ()
  | some running => do
    let runningVersion ← releaseVersion s running
    let candidateVersion ← releaseVersion s candidate
    checkNoRollback (some runningVersion) candidateVersion

/-- The gates that are decided without governance. -/
def preGates (st : AdoptionState) (q : Request) : Option AdoptionDecision :=
  match q.freshness.check q.policy.nowMs q.lastSyncedMs with
  | some stale => some stale
  | none       =>
    if q.candidate ∈ st.refused then some .refused
    else
      match checkRollback st.running q.store q.candidate with
      | .error e => some (.rejected e)
      | .ok ()   => none

/-- The verification that governance asks for. -/
def verifyGoverned (q : Request) : Except ForgeError VerifiedRelease :=
  verifyGovernedRelease q.store q.oracle q.candidate q.projectId q.branch q.policy

/-- Whether a release could be adopted now. -/
def evaluate (st : AdoptionState) (q : Request) : AdoptionDecision :=
  match st.preGates q with
  | some decision => decision
  | none          => .ofVerified (verifyGoverned q)

/-- Adopt a release. -/
def adopt (q : Request) : InPlace AdoptionState AdoptError VerifiedRelease := do
  check (q.freshness.validate.mapError .forge)
  check (match q.freshness.check q.policy.nowMs q.lastSyncedMs with
    | some (.viewTooStale lastSyncedMs maxStalenessMs) =>
      .error (.viewTooStale lastSyncedMs maxStalenessMs)
    | _ => .ok ())
  let st ← get
  check ((checkRollback st.running q.store q.candidate).mapError .forge)
  let verified ← check ((verifyGoverned q).mapError .forge)
  modify fun st => { st with running := some q.candidate }
  return verified

/-! ### Evaluating and adopting -/

variable {st : AdoptionState} {q : Request} {v : VerifiedRelease}

lemma preGates_ne_adoptable (st : AdoptionState) (q : Request) (v : VerifiedRelease) :
    st.preGates q ≠ some (.adoptable v) := by
  rw [preGates]
  split
  next d hfresh => simp [FreshnessPolicy.check_some hfresh]
  next =>
    split_ifs
    · simp
    · split <;> simp

lemma preGates_none :
    st.preGates q = none ↔ q.freshness.check q.policy.nowMs q.lastSyncedMs = none ∧
      q.candidate ∉ st.refused ∧ checkRollback st.running q.store q.candidate = .ok () := by
  rw [preGates]
  split
  next d hfresh => simp [hfresh]
  next hfresh =>
    split_ifs with hrefused
    · simp [hrefused]
    · split <;> simp [*]

/-- What passes every gate but the two that only one side looks at. -/
structure Passes (st : AdoptionState) (q : Request) (v : VerifiedRelease) : Prop where
  fresh : q.freshness.check q.policy.nowMs q.lastSyncedMs = none
  forward : checkRollback st.running q.store q.candidate = .ok ()
  governed : verifyGoverned q = .ok v

/-- A release is adoptable when it passes and was not refused. -/
lemma evaluate_eq_adoptable :
    st.evaluate q = .adoptable v ↔ q.candidate ∉ st.refused ∧ Passes st q v := by
  rw [evaluate]
  constructor
  · intro h
    cases hgates : st.preGates q with
    | some d =>
      rw [hgates] at h
      obtain rfl : d = .adoptable v := h
      exact absurd hgates (preGates_ne_adoptable st q v)
    | none =>
      rw [hgates] at h
      obtain ⟨hfresh, hrefused, hforward⟩ := preGates_none.mp hgates
      exact ⟨hrefused, hfresh, hforward, AdoptionDecision.ofVerified_eq_adoptable.mp h⟩
  · rintro ⟨hrefused, h⟩
    rw [preGates_none.mpr ⟨h.fresh, hrefused, h.forward⟩]
    exact AdoptionDecision.ofVerified_eq_adoptable.mpr h.governed

/-- Adopting succeeds on what passes under a policy within bounds, and leaves the state alone on
everything else. -/
lemma adopt_on {st' : AdoptionState} {r : Except AdoptError VerifiedRelease}
    (h : (adopt q).on st = (r, st')) :
    (∃ v, r = .ok v ∧ Passes st q v ∧ q.freshness.validate = .ok () ∧
      st' = { st with running := some q.candidate }) ∨
    (∃ e, r = .error e) ∧ st' = st ∧
      ¬ ((∃ v, Passes st q v) ∧ q.freshness.validate = .ok ()) := by
  rcases on_check_bind.mp h with ⟨e, he, rfl, rfl⟩ | ⟨⟨⟩, hvalid, h⟩
  · refine .inr ⟨⟨e, rfl⟩, rfl, fun hpasses => ?_⟩
    rw [hpasses.2] at he
    cases he
  rcases on_check_bind.mp h with ⟨e, he, rfl, rfl⟩ | ⟨⟨⟩, hfresh, h⟩
  · refine .inr ⟨⟨e, rfl⟩, rfl, ?_⟩
    rintro ⟨⟨v, hv⟩, -⟩
    rw [hv.fresh] at he
    cases he
  rw [on_get_bind] at h
  rcases on_check_bind.mp h with ⟨e, he, rfl, rfl⟩ | ⟨⟨⟩, hforward, h⟩
  · refine .inr ⟨⟨e, rfl⟩, rfl, ?_⟩
    rintro ⟨⟨v, hv⟩, -⟩
    rw [hv.forward] at he
    cases he
  rcases on_check_bind.mp h with ⟨e, he, rfl, rfl⟩ | ⟨v, hgoverned, h⟩
  · refine .inr ⟨⟨e, rfl⟩, rfl, ?_⟩
    rintro ⟨⟨v, hv⟩, -⟩
    rw [hv.governed] at he
    cases he
  rw [on_modify_bind, on_pure] at h
  cases h
  refine .inl ⟨v, rfl, ⟨?_, mapError_ok.mp hforward, mapError_ok.mp hgoverned⟩,
    mapError_ok.mp hvalid, rfl⟩
  cases hcheck : q.freshness.check q.policy.nowMs q.lastSyncedMs with
  | none => rfl
  | some d =>
    rw [hcheck, FreshnessPolicy.check_some hcheck] at hfresh
    cases hfresh

lemma adopt_on_of_passes (h : Passes st q v) (hvalid : q.freshness.validate = .ok ()) :
    (adopt q).on st = (.ok v, { st with running := some q.candidate }) := by
  rcases adopt_on (Prod.mk.eta (p := (adopt q).on st)).symm with
    ⟨w, hw, hpasses, -, hst⟩ | ⟨-, -, hnot⟩
  · obtain rfl : w = v := Except.ok.inj (hpasses.governed.symm.trans h.governed)
    exact Prod.ext hw hst
  · exact absurd ⟨⟨v, h⟩, hvalid⟩ hnot

omit [KeyPrimitives] in
lemma sample_evaluates : ∀ version ∈ ["1", "v1"], @evaluates .sums [(0, 1), (2, 3), (5, 8)]
    (@releaseChecks .sums version fun _ _ _ => some []) = true := by
  decide +kernel

omit [KeyPrimitives] in
/-- A request for a release of a version, under a freshness policy that does not matter yet. -/
lemma exists_sample_request {version : String} (hversion : version ∈ ["1", "v1"]) :
    ∃ q rel v, @verifyGoverned .sums q = .ok v ∧
      @Store.get .sums q.store q.candidate = .ok rel ∧ v.version = version ∧
      q.lastSyncedMs = q.policy.nowMs := by
  let := KeyPrimitives.sums
  obtain ⟨oracle, policy, a, b, r, x, extra, h, hnil, hnodup⟩ :=
    exists_sample_published (sample_evaluates version hversion)
  obtain rfl := Option.some.inj hnil
  obtain ⟨v, hgoverned, hv, -⟩ := h.exists_governed [] (by simp) (by simp) hnodup (by simp)
  exact ⟨⟨_, oracle, x.rel.id, x.project.genesis.id, "m", sampleRules, ⟨0⟩, sampleRules.nowMs⟩, x.rel,
    v, verifyGovernedRelease_ok.mpr ⟨x.rel, hgoverned⟩, hgoverned.get_eq, hv, rfl⟩

/-- It passes on a fresh device. -/
lemma passes_new (h : verifyGoverned q = .ok v) (hsynced : q.lastSyncedMs = q.policy.nowMs) :
    Passes new q v := by
  refine ⟨?_, rfl, h⟩
  rw [FreshnessPolicy.check, hsynced, Nat.sub_self]
  exact if_neg (Nat.not_lt_zero _)

/-- Evaluating a release that was not refused and adopting it agree exactly when the freshness
policy is within bounds, or the release is not adoptable anyway. -/
theorem evaluate_agrees_iff (st : AdoptionState) (q : Request)
    (hrefused : q.candidate ∉ st.refused) :
    ((∀ v, st.evaluate q = .adoptable v ↔ ((adopt q).on st).1 = .ok v) ∧
      ((∀ v, st.evaluate q ≠ .adoptable v) → ((adopt q).on st).2 = st)) ↔
      q.freshness.validate = .ok () ∨ ∀ v, st.evaluate q ≠ .adoptable v := by
  rcases adopt_on (Prod.mk.eta (p := (adopt q).on st)).symm with
    ⟨v, hv, hpasses, hvalid, -⟩ | ⟨⟨e, he⟩, hst, hnot⟩
  · have hadoptable := evaluate_eq_adoptable.mpr ⟨hrefused, hpasses⟩
    refine iff_of_true ⟨fun w => ?_, fun hnone => absurd hadoptable (hnone v)⟩ (.inl hvalid)
    rw [hv, hadoptable, AdoptionDecision.adoptable.injEq, Except.ok.injEq]
  · rw [he]
    simp only [reduceCtorEq, iff_false]
    constructor
    · exact fun h => .inr h.1
    · rintro (hvalid | hnone)
      · have hnone : ∀ v, st.evaluate q ≠ .adoptable v := fun v hv =>
          hnot ⟨⟨v, (evaluate_eq_adoptable.mp hv).2⟩, hvalid⟩
        exact ⟨hnone, fun _ => hst⟩
      · exact ⟨hnone, fun _ => hst⟩

omit [KeyPrimitives] in
theorem sample_evaluate_agrees :
    let := KeyPrimitives.sums
    ∃ q v, new.evaluate q = .adoptable v ∧ ((adopt q).on new).1 = .ok v := by
  intro _
  obtain ⟨q, rel, v, hgoverned, -, -, hsynced⟩ := exists_sample_request
    (by decide : "1" ∈ ["1", "v1"])
  let q' : Request := { q with freshness := ⟨1⟩ }
  have hadoptable : new.evaluate q' = .adoptable v :=
    evaluate_eq_adoptable.mpr ⟨not_mem_nil, passes_new (q := q') hgoverned hsynced⟩
  have hagrees := (evaluate_agrees_iff new q' not_mem_nil).mpr (.inl rfl)
  exact ⟨q', v, hadoptable, (hagrees.1 v).mp hadoptable⟩

omit [KeyPrimitives] in
/-- A device that allows no staleness at all, and synced just now. -/
theorem sample_evaluate_disagrees :
    let := KeyPrimitives.sums
    ∃ q v, q.candidate ∉ new.refused ∧ q.freshness = ⟨0⟩ ∧ new.evaluate q = .adoptable v ∧
      (adopt q).on new = (.error (.forge .badObject), new) := by
  intro _
  obtain ⟨q, rel, v, hgoverned, -, -, hsynced⟩ := exists_sample_request
    (by decide : "1" ∈ ["1", "v1"])
  let q' : Request := { q with freshness := ⟨0⟩ }
  have hadoptable : new.evaluate q' = .adoptable v :=
    evaluate_eq_adoptable.mpr ⟨not_mem_nil, passes_new (q := q') hgoverned hsynced⟩
  exact ⟨q', v, not_mem_nil, rfl, hadoptable, rfl⟩

/-! ### Runs of a device -/

/-- A release that was adopted: its identifier, what was stored under it, and what adopting
returned. -/
structure Adopted where
  id : ObjectId
  release : Object
  verified : VerifiedRelease

/-- A store that keeps what was adopted. -/
def Keeps (s : Store) (log : List Adopted) : Prop := ∀ a ∈ log, s.get a.id = .ok a.release

/-- The states a device reaches from a fresh one, and what it adopted on the way. -/
inductive Run : AdoptionState → List Adopted → Prop
  | new : Run new []
  | adopted {st st' : AdoptionState} {log : List Adopted} {q : Request} {rel : Object}
      {v : VerifiedRelease} (before : Run st log) (keeps : Keeps q.store log)
      (get_eq : q.store.get q.candidate = .ok rel) (step : (adopt q).on st = (.ok v, st')) :
      Run st' (log ++ [⟨q.candidate, rel, v⟩])
  | failed {st st' : AdoptionState} {log : List Adopted} {q : Request} {e : AdoptError}
      (before : Run st log) (keeps : Keeps q.store log)
      (step : (adopt q).on st = (.error e, st')) : Run st' log
  | refused {st : AdoptionState} {log : List Adopted} (candidate : ObjectId)
      (before : Run st log) : Run (st.refuse candidate) log

/-- A release whose version is well formed and above that of another. -/
def Follows (a b : Adopted) : Prop :=
  ∃ v w, Version.parse a.verified.version = .ok v ∧ Version.parse b.verified.version = .ok w ∧
    v.padded < w.padded

variable {log : List Adopted} {last : Adopted} {rel : Object}

omit [KeyPrimitives] in
lemma Follows.trans {a b c : Adopted} (hab : Follows a b) (hbc : Follows b c) : Follows a c := by
  obtain ⟨v, w, hv, hw, hvw⟩ := hab
  obtain ⟨w', x, hw', hx, hwx⟩ := hbc
  obtain rfl := Except.ok.inj (hw.symm.trans hw')
  exact ⟨v, x, hv, hx, hvw.trans hwx⟩

omit [KeyPrimitives] in
@[simp] lemma running_refuse (st : AdoptionState) (candidate : ObjectId) :
    (st.refuse candidate).running = st.running := by
  rw [refuse]
  split_ifs <;> rfl

/-- What adopting returns carries the version of the release that is stored. -/
lemma releaseVersion_of_governed (hrel : q.store.get q.candidate = .ok rel)
    (h : verifyGoverned q = .ok v) {s : Store} (hs : s.get q.candidate = .ok rel) :
    releaseVersion s q.candidate = Version.parse v.version := by
  obtain ⟨rel', hgoverned⟩ := verifyGovernedRelease_ok.mp h
  obtain rfl := Except.ok.inj (hrel.symm.trans hgoverned.get_eq)
  obtain ⟨recipe, hpayload⟩ := hgoverned.payload
  rw [releaseVersion, hs]
  simp [Except.mapError, failIf, hgoverned.objectType, hpayload, bind, Except.bind]

/-- The device runs what it adopted last, and the version of what it adopted is that of the release
wherever it is kept. -/
lemma Run.running_eq (h : Run st log) :
    st.running = log.getLast?.map Adopted.id ∧ ∀ a ∈ log, ∀ s : Store, s.get a.id = .ok a.release →
      releaseVersion s a.id = Version.parse a.verified.version := by
  induction h with
  | new => exact ⟨rfl, by simp⟩
  | adopted before keeps get_eq step ih =>
    rcases adopt_on step with ⟨v, hv, hpasses, -, rfl⟩ | ⟨⟨e, he⟩, -⟩
    · obtain rfl := Except.ok.inj hv
      refine ⟨by simp, fun a ha s hs => ?_⟩
      rcases mem_append.mp ha with ha | ha
      · exact ih.2 a ha s hs
      · obtain rfl := mem_singleton.mp ha
        exact releaseVersion_of_governed get_eq hpasses.governed hs
    · cases he
  | failed before keeps step ih =>
    rcases adopt_on step with ⟨v, hv, -⟩ | ⟨-, rfl, -⟩
    · cases hv
    · exact ih
  | refused candidate before ih => exact ⟨by rw [running_refuse]; exact ih.1, ih.2⟩

/-- What passes after a release has a version above it. -/
lemma Run.follows (h : Run st (log ++ [last]))
    (hkeeps : Keeps q.store (log ++ [last])) (hrel : q.store.get q.candidate = .ok rel)
    (hpasses : Passes st q v) : Follows last ⟨q.candidate, rel, v⟩ := by
  obtain ⟨hrunning, hversion⟩ := h.running_eq
  have hlast : st.running = some last.id := by simpa using hrunning
  have hmem : last ∈ log ++ [last] := by simp
  have hforward := hpasses.forward
  rw [hlast] at hforward
  obtain ⟨v', hv', hforward⟩ := bind_ok.mp hforward
  obtain ⟨w, hw, hforward⟩ := bind_ok.mp hforward
  rw [hversion last hmem q.store (hkeeps last hmem)] at hv'
  rw [releaseVersion_of_governed hrel hpasses.governed hrel] at hw
  exact ⟨v', w, hv', hw, checkNoRollback_ok.mp hforward⟩

/-- From a well-formed version on, every version is well formed and above those before it. -/
lemma Run.pairwise_follows (h : Run st log) : log.Pairwise Follows := by
  induction h with
  | new => exact .nil
  | @adopted st st' log q rel v before keeps get_eq step ih =>
    rcases adopt_on step with ⟨v', hv', hpasses, -, -⟩ | ⟨⟨e, he⟩, -⟩
    · obtain rfl := Except.ok.inj hv'
      rcases eq_nil_or_concat log with rfl | ⟨init, last, rfl⟩
      · simp
      · rw [concat_eq_append] at *
        have hlast := before.follows keeps get_eq hpasses
        refine pairwise_append.mpr ⟨ih, pairwise_singleton _ _, fun a ha b hb => ?_⟩
        obtain rfl := mem_singleton.mp hb
        rcases mem_append.mp ha with ha | ha
        · exact ((pairwise_append.mp ih).2.2 a ha last (by simp)).trans hlast
        · obtain rfl := mem_singleton.mp ha
          exact hlast
    · cases he
  | failed before keeps step ih => exact ih
  | refused candidate before ih => exact ih

/-- A device that runs a release whose version is not well formed adopts nothing any more. -/
lemma Run.wedged (h : Run st (log ++ [last]))
    (hbad : ∀ v, Version.parse last.verified.version ≠ .ok v) (q : Request)
    (hkeeps : Keeps q.store (log ++ [last])) : ∃ e, (adopt q).on st = (.error e, st) := by
  rcases adopt_on (Prod.mk.eta (p := (adopt q).on st)).symm with
    ⟨v, hv, hpasses, -, -⟩ | ⟨⟨e, he⟩, hst, -⟩
  · obtain ⟨rel, hrel⟩ := verifyGovernedRelease_ok.mp hpasses.governed
    obtain ⟨u, -, hu, -⟩ := h.follows hkeeps hrel.get_eq hpasses
    exact absurd hu (hbad u)
  · exact ⟨e, Prod.ext he hst⟩

/-- A device moves forward: the versions it adopts are well formed and go up, and what is verified
with a version above the last one can be adopted. -/
structure Forward (st : AdoptionState) (log : List Adopted) : Prop where
  increasing : log.Pairwise Follows
  wellFormed : ∀ a ∈ log, ∃ v, Version.parse a.verified.version = .ok v
  proceeds : ∀ (q : Request) (v : VerifiedRelease) (w : Version), Keeps q.store log →
    verifyGoverned q = .ok v → Version.parse v.version = .ok w →
    (∀ a ∈ log.getLast?, ∀ u, Version.parse a.verified.version = .ok u → u.padded < w.padded) →
    q.freshness.validate = .ok () → q.freshness.check q.policy.nowMs q.lastSyncedMs = none →
    ((adopt q).on st).1 = .ok v

/-- In every run a device moves forward exactly when the version of the first release it adopted is
well formed. -/
theorem Run.forward_iff {st : AdoptionState} {log : List Adopted} (h : Run st log) :
    Forward st log ↔ ∀ a ∈ log.head?, ∃ v, Version.parse a.verified.version = .ok v := by
  refine ⟨fun hforward a ha => hforward.wellFormed a (mem_of_mem_head? ha), fun hfirst => ?_⟩
  have hpairwise := h.pairwise_follows
  have hwellFormed : ∀ a ∈ log, ∃ v, Version.parse a.verified.version = .ok v := by
    cases log with
    | nil => simp
    | cons first rest =>
      intro a ha
      rcases mem_cons.mp ha with rfl | ha
      · exact hfirst a rfl
      · obtain ⟨-, w, -, hw, -⟩ := (pairwise_cons.mp hpairwise).1 a ha
        exact ⟨w, hw⟩
  refine ⟨hpairwise, hwellFormed, fun q v w hkeeps hgoverned hw habove hvalid hfresh => ?_⟩
  obtain ⟨rel, hrel⟩ := verifyGovernedRelease_ok.mp hgoverned
  have hcandidate := releaseVersion_of_governed hrel.get_eq hgoverned hrel.get_eq
  obtain ⟨hrunning, hversion⟩ := h.running_eq
  have hforward : checkRollback st.running q.store q.candidate = .ok () := by
    rw [hrunning]
    cases hlast : log.getLast? with
    | none => rfl
    | some a =>
      have ha : a ∈ log := mem_of_getLast? hlast
      obtain ⟨u, hu⟩ := hwellFormed a ha
      refine bind_ok.mpr ⟨u, (hversion a ha q.store (hkeeps a ha)).trans hu, ?_⟩
      refine bind_ok.mpr ⟨w, hcandidate.trans hw, checkNoRollback_ok.mpr ?_⟩
      exact habove a hlast u hu
  rw [adopt_on_of_passes ⟨hfresh, hforward, hgoverned⟩ hvalid]

omit [KeyPrimitives] in
theorem sample_forward :
    let := KeyPrimitives.sums
    ∃ st a, Run st [a] ∧ Forward st [a] := by
  intro _
  obtain ⟨q, rel, v, hgoverned, hrel, hv, hsynced⟩ := exists_sample_request
    (by decide : "1" ∈ ["1", "v1"])
  let q' : Request := { q with freshness := ⟨1⟩ }
  have hrun : Run _ [⟨q.candidate, rel, v⟩] := .adopted (q := q') .new (by simp [Keeps]) hrel
    (adopt_on_of_passes (passes_new (q := q') hgoverned hsynced) rfl)
  refine ⟨_, _, hrun, hrun.forward_iff.mpr ?_⟩
  rintro a ⟨⟩
  exact ⟨⟨[1]⟩, (congrArg Version.parse hv).trans (by decide +kernel)⟩

omit [KeyPrimitives] in
/-- A device whose first release is called "v1" adopts nothing any more. -/
theorem sample_wedged :
    let := KeyPrimitives.sums
    ∃ st a, Run st [a] ∧ a.verified.version = "v1" ∧
      Version.parse a.verified.version = .error .badVersion ∧
      ∀ q, Keeps q.store [a] → ∃ e, (adopt q).on st = (.error e, st) := by
  intro _
  obtain ⟨q, rel, v, hgoverned, hrel, hv, hsynced⟩ := exists_sample_request
    (by decide : "v1" ∈ ["1", "v1"])
  let q' : Request := { q with freshness := ⟨1⟩ }
  have hrun : Run _ ([] ++ [⟨q.candidate, rel, v⟩]) := .adopted (q := q') .new (by simp [Keeps]) hrel
    (adopt_on_of_passes (passes_new (q := q') hgoverned hsynced) rfl)
  have hbad : Version.parse v.version = .error .badVersion :=
    (congrArg Version.parse hv).trans (by decide +kernel)
  refine ⟨_, _, hrun, hv, hbad, hrun.wedged fun w hw => ?_⟩
  exact absurd (hbad.symm.trans hw) nofun

end

end AdoptionState

end Mininet.Update
